import Mathlib.Data.List.Forall2
import Unstrip.Proofs.Json.Unambiguous
import Unstrip.Proofs.Json.Writing
import Unstrip.Proofs.Outcome
import Unstrip.Proofs.TableJson

/-!
# The report as a document loses nothing

A report is written as one JSON object and a line break. What an object says about a report is told by its
members (`Report.IsToldBy`); the object that is written says all of it, and its text stands for nothing else.
Main statement: `json_loses_nothing`.
-/

namespace Unstrip

namespace Json

/-- All numbers in the value have at most 64 bits. -/
inductive HasWords : Json → Prop
  | boolean (value : Bool) : HasWords (.boolean value)
  | numeral {n : Nat} (h : n < wordLimit) : HasWords (.numeral n)
  | quoted (value : String) : HasWords (.quoted value)
  | array {items : List Json} (h : ∀ item ∈ items, HasWords item) : HasWords (.array items)
  | object {members : List (String × Json)} (h : ∀ member ∈ members, HasWords member.2) :
    HasWords (.object members)

/-- The reader undoes the writer of documents, for values whose numbers have at most 64 bits. -/
def UndoesWriter (reader : String → Option Json) : Prop :=
  ∀ value : Json, value.HasWords → reader (String.join value.prettyPieces) = some value

theorem undoesWriter_ofText : UndoesWriter fun text => (ofText text).toOption := by
  intro value _
  simp only [ofText_of_spelledBy (spelledBy_pretty value)]
  rfl

end Json

namespace Symbol

/-- The object has the name of the symbol, its address, and the other address if there is one. -/
structure IsToldBy (symbol : Symbol) (item : Json) : Prop where
  keys : ∃ members, item = .object members ∧
    (members.map (·.1)).Sublist ["name", "address", "meta_address"]
  name : item.membersNamed "name" = [.quoted symbol.name]
  address : item.membersNamed "address" = [.numeral symbol.address]
  metadataAddress : item.membersNamed "meta_address" = (symbol.metadataAddress.map .numeral).toList

variable {symbol : Symbol}

theorem isToldBy_toJson (symbol : Symbol) : symbol.IsToldBy symbol.toJson := by
  obtain ⟨name, address, metadataAddress⟩ := symbol
  cases metadataAddress with
  | none =>
    have hkeys : ["name", "address"].Sublist ["name", "address", "meta_address"] := by decide
    exact ⟨⟨_, rfl, hkeys⟩, rfl, rfl, rfl⟩
  | some other => exact ⟨⟨_, rfl, .refl _⟩, rfl, rfl, rfl⟩

/-- An object tells about one symbol only. -/
theorem leftUnique_isToldBy : Relator.LeftUnique IsToldBy := by
  intro symbol other item h hother
  have hname := h.name.symm.trans hother.name
  have haddress := h.address.symm.trans hother.address
  have hmetadata := h.metadataAddress.symm.trans hother.metadataAddress
  obtain ⟨name, address, metadataAddress⟩ := symbol
  obtain ⟨name', address', metadataAddress'⟩ := other
  cases metadataAddress <;> cases metadataAddress' <;> simp_all

theorem HasWords.toJson (h : symbol.HasWords) : symbol.toJson.HasWords := by
  obtain ⟨name, address, metadataAddress⟩ := symbol
  cases metadataAddress with
  | none =>
    refine .object (List.forall_mem_cons.2 ⟨.quoted name, ?_⟩)
    exact List.forall_mem_singleton.2 (.numeral h.address)
  | some other =>
    refine .object (List.forall_mem_cons.2 ⟨.quoted name, List.forall_mem_cons.2 ⟨.numeral h.address, ?_⟩⟩)
    exact List.forall_mem_singleton.2 (.numeral (h.metadataAddress other rfl))

end Symbol

namespace Report

/-- The object tells what is known: for each kind of knowledge it has a member if there is something to tell,
and never two. The symbols are listed in order, and counted. -/
structure IsToldBy (report : Report) (document : Json) : Prop where
  keys : ∃ members, document = .object members ∧
    (members.map (·.1)).Sublist ["source", "section", "complete", "error", "count", "symbols"]
  source : document.membersNamed "source" = [.quoted report.source]
  sectionName : document.membersNamed "section" = (report.sectionName.map .quoted).toList
  complete : document.membersNamed "complete" = [.boolean report.failure.isNone]
  failure : document.membersNamed "error" = (report.failure.map .quoted).toList
  symbols : ∃ items, document.membersNamed "symbols" = [.array items] ∧
    document.membersNamed "count" = [.numeral items.length] ∧
    List.Forall₂ Symbol.IsToldBy report.symbols.toList items

structure SaysSame (report other : Report) : Prop where
  source : report.source = other.source
  sectionName : report.sectionName = other.sectionName
  failure : report.failure = other.failure
  symbols : report.symbols.toList = other.symbols.toList

/-- The numbers of a report have at most 64 bits. -/
structure HasWords (report : Report) : Prop where
  count : report.symbols.size < wordLimit
  symbols : ∀ symbol ∈ report.symbols.toList, symbol.HasWords

variable {report other : Report} {document : Json}

theorem keys_optionalMember (name : String) (value : Option String) :
    ((optionalMember name value).map (·.1)).Sublist [name] := by
  cases value with
  | none => exact List.nil_sublist _
  | some value => exact .refl _

theorem keys_toJson (report : Report) : ∃ members, report.toJson = .object members ∧
    (members.map (·.1)).Sublist ["source", "section", "complete", "error", "count", "symbols"] := by
  refine ⟨_, rfl, ?_⟩
  simp only [List.map_append]
  have hsection := keys_optionalMember "section" report.sectionName
  have herror := keys_optionalMember "error" report.failure
  exact ((((List.Sublist.refl ["source"]).append hsection).append (.refl ["complete"])).append herror).append
    (.refl ["count", "symbols"])

theorem isToldBy_toJson (report : Report) : report.IsToldBy report.toJson := by
  have hkeys := report.keys_toJson
  have hcount : (report.symbols.toList.map Symbol.toJson).length = report.symbols.size := by
    simp [SymbolTable.toList, SymbolTable.size]
  have hlisted : List.Forall₂ Symbol.IsToldBy report.symbols.toList
      (report.symbols.toList.map Symbol.toJson) := by
    rw [List.forall₂_map_right_iff, List.forall₂_same]
    exact fun symbol _ => symbol.isToldBy_toJson
  obtain ⟨source, sectionName, symbols, failure⟩ := report
  cases sectionName <;> cases failure <;>
    exact ⟨hkeys, rfl, rfl, rfl, rfl, _, rfl, hcount ▸ rfl, hlisted⟩

/-- The document with its line break is read as the object. -/
theorem ofText_render (report : Report) : Json.ofText (report.render .json) = .ok report.toJson := by
  rw [render_json]
  exact Json.ofText_append (Json.spelledBy_pretty report.toJson) (by simp [Json.isBlank])

/-- An object tells about one report only, but for the flag of its table. -/
theorem IsToldBy.saysSame (h : report.IsToldBy document) (hother : other.IsToldBy document) :
    report.SaysSame other := by
  obtain ⟨items, hitems, -, hlisted⟩ := h.symbols
  obtain ⟨items', hitems', -, hlisted'⟩ := hother.symbols
  obtain rfl : items = items' := by simpa using hitems.symm.trans hitems'
  have hsource := h.source.symm.trans hother.source
  have hsection := h.sectionName.symm.trans hother.sectionName
  have hfailure := h.failure.symm.trans hother.failure
  have hsymbols := List.left_unique_forall₂' Symbol.leftUnique_isToldBy hlisted hlisted'
  refine ⟨by simpa using hsource, ?_, ?_, hsymbols⟩
  · cases h : report.sectionName <;> cases h' : other.sectionName <;> simp_all
  · cases h : report.failure <;> cases h' : other.failure <;> simp_all

theorem SaysSame.toJson_eq (h : report.SaysSame other) : report.toJson = other.toJson := by
  have hsize : report.symbols.size = other.symbols.size := by
    have hlength := congrArg List.length h.symbols
    simpa [SymbolTable.toList, SymbolTable.size] using hlength
  simp only [toJson, isComplete, SymbolTable.toJson, h.source, h.sectionName, h.failure, h.symbols, hsize]

theorem HasWords.toJson (h : report.HasWords) : report.toJson.HasWords := by
  have hsymbols : report.symbols.toJson.HasWords := by
    refine .array (List.forall_mem_map.2 fun symbol hsymbol => ?_)
    exact (h.symbols symbol hsymbol).toJson
  have hoptional : ∀ (name : String) (value : Option String),
      ∀ member ∈ optionalMember name value, member.2.HasWords := by
    rintro name (_ | value)
    · exact nofun
    · exact List.forall_mem_singleton.2 (.quoted value)
  refine .object ?_
  simp only [List.forall_mem_append, List.forall_mem_cons, List.not_mem_nil, false_imp_iff, implies_true,
    and_true]
  exact ⟨⟨⟨⟨.quoted _, hoptional _ _⟩, .boolean _⟩, hoptional _ _⟩, .numeral h.count, hsymbols⟩

/-- **The document loses nothing.** It is one JSON object with a line break behind it, and stands for this
object alone, which tells all that is known. So every reader that undoes the writer gets the object back,
and two reports are rendered alike only if they say the same. -/
theorem json_loses_nothing (report : Report) :
    ∃ document : String, report.render .json = document ++ "\n" ∧
      (∀ value : Json, value.SpelledBy document ↔ value = report.toJson) ∧
      report.IsToldBy report.toJson ∧
      Json.ofText (report.render .json) = .ok report.toJson ∧
      (∀ reader, Json.UndoesWriter reader → report.HasWords → reader document = some report.toJson) ∧
      (∀ other : Report, report.render .json = other.render .json ↔ report.SaysSame other) := by
  have hspells := Json.spelledBy_pretty report.toJson
  refine ⟨_, report.render_json, fun value => ⟨fun h => h.unique hspells, ?_⟩, report.isToldBy_toJson,
    report.ofText_render, fun reader hreader hwords => hreader _ hwords.toJson,
    fun other => ⟨fun h => ?_, fun h => ?_⟩⟩
  · rintro rfl
    exact hspells
  · have hread := other.ofText_render
    rw [← h, ofText_render] at hread
    have hother := other.isToldBy_toJson
    rw [← Except.ok.inj hread] at hother
    exact report.isToldBy_toJson.saysSame hother
  · rw [render_json, render_json, h.toJson_eq]

/-- The report of a part of a table, with names that are escaped and the greatest address: it is read back,
and the report of a complete table with the same symbols is rendered differently. -/
theorem json_loses_nothing_part :
    let symbols := SymbolTable.ofList [⟨"ma\"in\n", 0xffffffffffffffff, some 1⟩, ⟨"", 0, none⟩]
    let report : Report := ⟨"a\\b", none, symbols, some "cut"⟩
    let reader := fun text => (Json.ofText text).toOption
    Json.UndoesWriter reader ∧ report.HasWords ∧
      ∃ document, report.render .json = document ++ "\n" ∧ reader document = some report.toJson ∧
        report.render .json ≠ ({ report with failure := none } : Report).render .json := by
  intro symbols report reader
  have hwords : report.HasWords := by
    refine ⟨by decide, List.forall_mem_cons.2 ⟨⟨by decide, ?_⟩, ?_⟩⟩
    · rintro _ ⟨rfl⟩
      decide
    · exact List.forall_mem_singleton.2 ⟨by decide, nofun⟩
  obtain ⟨document, hrender, -, -, -, hreader, hsame⟩ := json_loses_nothing report
  refine ⟨Json.undoesWriter_ofText, hwords, document, hrender,
    hreader reader Json.undoesWriter_ofText hwords, fun h => ?_⟩
  cases ((hsame _).1 h).failure

end Report

end Unstrip
