import Unstrip.Proofs.Pool

/-!
# Telling while resolving

Each kind of event is worded in its own way, so a reader of the texts can tell them apart
(`Event.kinds_of_wording`).

A build tells of a record while it is resolved, one record after the other. What is told can be read off the
symbols that the build comes to: `tells_tellSymbolAt` says so of one record, `tellFrom_eq` of a run of them,
and `buildInline_eq` of all.
-/

namespace Unstrip

/-! ## Telling events apart -/

namespace Event

/-- The step between stages that the event tells. -/
def step? : Event → Option (Stage × Stage)
  | stageReached before after => some (before, after)
  | signatureFound _ | foreignHeader _ | headerDecoded _ | poolStarted .. | addressMismatch ..
  | recovered .. | partKept .. => none

/-- The symbol that is told to have two addresses. -/
def mismatch? : Event → Option Symbol
  | addressMismatch name address metadataAddress => some ⟨name, address, some metadataAddress⟩
  | signatureFound _ | foreignHeader _ | stageReached .. | headerDecoded _ | poolStarted ..
  | recovered .. | partKept .. => none

/-- How many symbols are told to be kept, and of how many. -/
def kept? : Event → Option (Nat × Nat)
  | partKept kept count _ => some (kept, count)
  | signatureFound _ | foreignHeader _ | stageReached .. | headerDecoded _ | poolStarted ..
  | addressMismatch .. | recovered .. => none

/-- Whether the wording of the event begins with the given text. -/
def OpensWith (event : Event) (text : String) : Prop := text.toList <+: event.message.toList

/-- How the wording of each kind of event begins. -/
def opening : Event → String
  | signatureFound _ => "Found "
  | foreignHeader _ => "Found Go-style header with unsupported magic 0x"
  | stageReached .. => "Parse stage: "
  | headerDecoded _ => "Go 1."
  | poolStarted .. => "Resolving "
  | addressMismatch .. => "Address mismatch for "
  | recovered .. => "Recovered "
  | partKept .. => "Keeping "

theorem prefix_append {text front back : String} (h : text.toList <+: front.toList) :
    text.toList <+: (front ++ back).toList := by
  rw [String.toList_append]
  exact h.trans (List.prefix_append _ _)

theorem prefix_title (release : Release) : "Go 1.".toList <+: release.title.toList := by
  cases release <;> decide

theorem opensWith_opening (event : Event) : event.OpensWith event.opening := by
  unfold OpensWith message
  cases event with
  | signatureFound anchor => exact prefix_append (prefix_append (prefix_append List.prefix_rfl))
  | foreignHeader magic => exact prefix_append List.prefix_rfl
  | stageReached before after => exact prefix_append (prefix_append (prefix_append List.prefix_rfl))
  | headerDecoded header =>
    refine prefix_append (prefix_append (prefix_append (prefix_append (prefix_append ?_))))
    exact prefix_title header.release
  | poolStarted count workers =>
    exact prefix_append (prefix_append (prefix_append (prefix_append List.prefix_rfl)))
  | addressMismatch name address metadataAddress =>
    exact prefix_append (prefix_append (prefix_append List.prefix_rfl))
  | recovered count release =>
    exact prefix_append (prefix_append (prefix_append (prefix_append List.prefix_rfl)))
  | partKept kept count fault =>
    exact prefix_append (prefix_append (prefix_append (prefix_append (prefix_append List.prefix_rfl))))

def openings : List String :=
  ["Found ", "Found Go-style header with unsupported magic 0x", "Parse stage: ", "Go 1.", "Resolving ",
    "Address mismatch for ", "Recovered ", "Keeping "]

theorem opening_mem (event : Event) : event.opening ∈ openings := by
  cases event <;> simp [opening, openings]

/-- What the wordings of these three kinds begin with, no other wording begins with. -/
theorem opensWith_iff {event : Event} {text : String}
    (htext : text ∈ ["Parse stage: ", "Address mismatch for ", "Keeping "]) :
    event.OpensWith text ↔ event.opening = text := by
  have hapart : ∀ text ∈ ["Parse stage: ", "Address mismatch for ", "Keeping "], ∀ other ∈ openings,
      text.toList <+: other.toList ∨ other.toList <+: text.toList → other = text := by decide
  constructor
  · intro h
    exact hapart text htext _ event.opening_mem
      (List.prefix_or_prefix_of_prefix h event.opensWith_opening)
  · rintro rfl
    exact event.opensWith_opening

/-- The wording tells what kind of event it is. -/
theorem kinds_of_wording (event : Event) :
    (event.OpensWith "Parse stage: " ↔ event.step?.isSome = true) ∧
    (event.OpensWith "Address mismatch for " ↔ event.mismatch?.isSome = true) ∧
    (event.OpensWith "Keeping " ↔ event.kept?.isSome = true) := by
  rw [opensWith_iff (by simp), opensWith_iff (by simp), opensWith_iff (by simp)]
  cases event <;> simp [opening, step?, mismatch?, kept?]

/-- A warning tells of a disagreement or of symbols that are kept, and only the end of a successful
extraction is told for information. -/
theorem kinds_of_level (event : Event) :
    (event.level = .warn ↔ event.mismatch?.isSome = true ∨ event.kept?.isSome = true) ∧
    (event.level = .info ↔ ∃ count release, event = .recovered count release) := by
  cases event <;> simp [level, mismatch?, kept?]

end Event

/-! ## Telling while resolving -/

section
variable {ε α β : Type}

/-- The computation comes to `y`. If that is a value, what is told of it has been logged, and otherwise
nothing. -/
def Tells (x : ExceptT ε Logged α) (y : Except ε α) (told : α → List Event) : Prop :=
  x.run = ⟨y, match y with
    | .ok a => told a
    | .error _ => []⟩

namespace Tells

theorem silently {x : Except ε α} {f : α → ExceptT ε Logged β} {g : α → Except ε β} {told : β → List Event}
    (h : ∀ a, Tells (f a) (g a) told) : Tells (Logged.silently x >>= f) (x >>= g) told := by
  cases x with
  | error e => rfl
  | ok a => exact h a

theorem pure {a : α} {told : α → List Event} (h : told a = []) :
    Tells (Pure.pure a : ExceptT ε Logged α) (Pure.pure a) told := by
  unfold Tells
  simp only [Pure.pure, Except.pure, h]
  rfl

theorem tell {a : α} {event : Event} {told : α → List Event} (h : told a = [event]) :
    Tells (ExceptT.lift (Logged.tell event) >>= fun _ => (Pure.pure a : ExceptT ε Logged α)) (Pure.pure a)
      told := by
  unfold Tells
  simp only [Pure.pure, Except.pure, h]
  rfl

theorem map {x : ExceptT ε Logged α} {y : Except ε α} {f : α → β} {told : β → List Event}
    (h : Tells x y fun a => told (f a)) :
    Tells (x >>= fun a => Pure.pure (f a)) (y >>= fun a => Pure.pure (f a)) told := by
  unfold Tells at h ⊢
  rw [ExceptT.run_bind, h]
  cases y with
  | error e => rfl
  | ok a => exact congrArg (Logged.mk _) (List.append_nil _)

end Tells

end

theorem NameTable.tells_tellFollow (names : NameTable) (descriptor : Descriptor) :
    Tells (names.tellFollow descriptor) (names.follow descriptor)
      fun entry => (Event.ofSymbol? (symbolFrom descriptor entry)).toList := by
  refine .silently fun metadata => .silently fun name => ?_
  by_cases hsame : metadata.address = descriptor.address
  · rw [if_neg (by simpa using hsame)]
    exact .pure (by simp [symbolFrom, Event.ofSymbol?, hsame])
  · rw [if_pos hsame]
    exact .tell (by simp [symbolFrom, Event.ofSymbol?, hsame])

namespace Records

variable {records : Records}

/-- One record comes to the same symbol whether it is told of or not. -/
theorem tells_tellSymbolAt (index : Nat) :
    Tells (records.tellSymbolAt index) (records.symbolAt index)
      fun symbol => (Event.ofSymbol? symbol).toList := by
  refine .silently fun descriptor => ?_
  exact .map (records.names.tells_tellFollow descriptor)

/-- The symbols that are new have been told of, in their order. -/
theorem tellFrom_eq (count start : Nat) (done : Array Symbol) :
    ∃ new : List Symbol, (collectFrom records.symbolAt count start done).1.toList = done.toList ++ new ∧
      records.tellFrom count start done =
        ⟨outcome (collectFrom records.symbolAt count start done), new.filterMap Event.ofSymbol?⟩ := by
  induction count generalizing start done with
  | zero => exact ⟨[], by simp [collectFrom], rfl⟩
  | succ count ih =>
    have htells := records.tells_tellSymbolAt start
    rw [tellFrom, collectFrom, htells]
    cases records.symbolAt start with
    | error fault => exact ⟨[], by simp, rfl⟩
    | ok symbol =>
      obtain ⟨new, hnew, htold⟩ := ih (start + 1) (done.push symbol)
      refine ⟨symbol :: new, by simp [hnew], ?_⟩
      refine (congrArg (fun rest : Logged _ => Logged.mk rest.value (_ ++ rest.log)) htold).trans ?_
      cases hevent : Event.ofSymbol? symbol <;> simp [hevent]

/-- **Telling while resolving is telling of what has been resolved.** -/
theorem buildInline_eq :
    records.buildInline = ⟨outcome (collectFrom records.symbolAt records.count 0 #[]),
      (collectFrom records.symbolAt records.count 0 #[]).1.toList.filterMap Event.ofSymbol?⟩ := by
  obtain ⟨new, hnew, htold⟩ := records.tellFrom_eq records.count 0 #[]
  rw [buildInline, htold, hnew]
  rfl

end Records

end Unstrip
