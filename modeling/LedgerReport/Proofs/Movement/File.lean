import LedgerReport.Movement.File
import LedgerReport.Proofs.Filter.Meaning
import LedgerReport.Proofs.Movement.Layout
/-!
Codes in files of movements.

A file holds movements as a table with a column for each of some parts, or as a list of records that
name these parts (`Files.HoldsTable`, `Files.HoldsList`). Both are read as these movements in order,
but only the table keeps the codes whatever they are (`Dataset.ofFile_codes`).
-/

set_option autoImplicit false

namespace LedgerReport
open Movement

namespace Files

/-- Whether a file holds movements as a table with a column for each of some parts. -/
def HoldsTable (files : Files) (name : String) (ps : List Part) (ms : List Movement) : Prop :=
  Dataset.isJsonName name = false ∧ ∃ text, files.opened name = .ok text ∧
    Csv.read text = .ok ⟨ps.map Part.name, ms.map fun m => ps.map fun p => (m.part p).cell⟩

/-- Whether a file holds movements as a list of records that name some parts. -/
def HoldsList (files : Files) (name : String) (ps : List Part) (ms : List Movement) : Prop :=
  Dataset.isJsonName name = true ∧ ∃ text, files.opened name = .ok text ∧
    Json.read text = .ok (.list (ms.map fun m => .map (ps.map fun p => (p.key, m.part p))))

end Files

namespace Dataset
variable {files : Files} {name : String} {ps : List Part} {ms : List Movement}

theorem exists_ofFile_table (hp : Part.Suffice ps) (h : ∀ m ∈ ms, m.IsCoded)
    (hfile : files.HoldsTable name ps ms) :
    ∃ d, ofFile files name = .ok d ∧ List.Forall₂ (Keeps .text) ms d.movements := by
  obtain ⟨hname, text, htext, hread⟩ := hfile
  obtain ⟨d, hd, hkept⟩ := hp.exists_ofRecords (fun p _ => Column.carries_values h p) name
  refine ⟨d, ?_, hkept⟩
  have hrecords : recordsOfCsv text = .ok (Column.records (ps.map fun p => (p.key,
      Column.values (Column.textNames.contains p.name) (ms.map fun m => (m.part p).cell)))
        ms.length) := by
    refine bind_eq_ok.2 ⟨_, congrArg (Except.mapError tableError) hread, ?_⟩
    rw [Column.ofTable_parts hp.nodup, List.map_map, List.length_map]
    rfl
  rw [ofFile, htext, hname]
  exact bind_eq_ok.2 ⟨text, rfl, bind_eq_ok.2 ⟨_, hrecords, hd⟩⟩

theorem rulesAlike_recordNumber : Json.RulesAlike Json.exactNumber recordNumber := by
  intro cs isWhole v hv
  cases isWhole with
  | true => exact ⟨v, hv, .refl v⟩
  | false =>
    cases hv
    unfold recordNumber
    rw [if_neg Bool.false_ne_true]
    split
    · exact ⟨_, rfl, .real _ _⟩
    · exact ⟨_, rfl, .refl _⟩

def IsRecord (ps : List Part) (m : Movement) (r : Entries) : Prop :=
  ∃ v : Part → Value, r = ps.map (fun p => (p.key, v p)) ∧ ∀ p ∈ ps, (m.part p).Alike (v p)

theorem isRecord_of_alike (hn : ps.Nodup) {m : Movement} {w : Value}
    (h : Value.Alike (.map (ps.map fun p => (p.key, m.part p))) w) :
    IsRecord ps m (entriesOf w) := by
  obtain ⟨es, rfl, hkeys, hvalues⟩ := h.exists_map
  rw [List.map_map] at hkeys hvalues
  obtain ⟨v, hv, halike⟩ := exists_map_of_forall₂ hn (List.forall₂_map_left_iff.1 hvalues)
  refine ⟨v, ?_, halike⟩
  rw [entriesOf, List.zip_of_prod hkeys hv, List.zip_map']
  rfl

theorem recordsOfJson_eq (hn : ps.Nodup) {text : String} (h : Json.read text =
    .ok (.list (ms.map fun m => .map (ps.map fun p => (p.key, m.part p))))) :
    ∃ rs, List.Forall₂ (IsRecord ps) ms rs ∧ recordsOfJson text =
      .ok (Column.records (ps.map fun p => (p.key,
        Column.converted (Frame.typed (Frame.column rs p.key)))) ms.length) := by
  obtain ⟨w, hw, halike⟩ := Json.readWith_alike rulesAlike_recordNumber h
  obtain ⟨ws, rfl, hws⟩ := halike.exists_list
  have hrows : List.Forall₂ (IsRecord ps) ms (ws.map entriesOf) :=
    List.forall₂_map_right_iff.2
      ((List.forall₂_map_left_iff.1 hws).imp fun m w hmw => isRecord_of_alike hn hmw)
  refine ⟨_, hrows, bind_eq_ok.2 ⟨_, congrArg (Except.mapError recordsError) hw, ?_⟩⟩
  refine bind_eq_ok.2 ⟨_, rfl, congrArg Except.ok ?_⟩
  have hlength := hrows.length_eq
  cases ms with
  | nil =>
    -- without records there are no columns, and none of the columns of the parts has a value
    obtain rfl : ws = [] := List.length_eq_zero_iff.1 (by simpa using hlength.symm)
    rfl
  | cons m ms =>
    have hkeys : ∀ r ∈ ws.map entriesOf, r.map (·.1) = ps.map Part.key := by
      intro r hr
      obtain ⟨m, -, v, rfl, -⟩ := exists_of_forall₂ hrows.flip r hr
      rw [List.map_map]
      rfl
    rw [Frame.columns_parts hn hkeys (by intro hnil; simp [hnil] at hlength), List.map_map, hlength]
    rfl

theorem exists_ofFile_list (hp : Part.Suffice ps) (h : ∀ m ∈ ms, m.IsCoded)
    (hfile : files.HoldsList name ps ms) :
    ∃ d, ofFile files name = .ok d ∧ List.Forall₂ (Keeps throughNumber) ms d.movements := by
  obtain ⟨hname, text, htext, hread⟩ := hfile
  obtain ⟨rs, hrs, hrecords⟩ := recordsOfJson_eq hp.nodup hread
  have hheld : ∀ p ∈ ps, List.Forall₂ (Column.IsHeld p) ms (Frame.column rs p.key) := by
    intro p hmem
    refine List.forall₂_map_right_iff.2 (hrs.imp ?_)
    rintro m - ⟨v, rfl, hv⟩
    exact ⟨v p, Frame.held?_parts hmem v, hv p hmem⟩
  obtain ⟨d, hd, hkept⟩ :=
    hp.exists_ofRecords (fun p hmem => Column.carries_converted h (hheld p hmem)) name
  refine ⟨d, ?_, hkept⟩
  rw [ofFile, htext, hname]
  exact bind_eq_ok.2 ⟨text, rfl, bind_eq_ok.2 ⟨_, hrecords, hd⟩⟩

def literal (f : Field) (s : String) : Value := .map [(.text f.name, .text s)]

theorem read_literal (f : Field) (s : String) :
    Filter.read (literal f s) = .ok [(f, .equals (.text s))] := by
  cases f <;> rfl

/-- Whether the filters for one text in a field select the same of two datasets. -/
def SelectAlike (f : Field) (d d' : Dataset) : Prop :=
  ∀ s, ∃ filter, Filter.read (literal f s) = .ok filter ∧
    d'.movements.map (Filter.holds filter) = d.movements.map (Filter.holds filter)

theorem holds_literal (f : Field) (s : String) :
    Filter.holds [(f, .equals (.text s))] = fun m => (m.get f).same (.text s) := by
  funext m
  simp [Filter.holds, Condition.holds]

theorem selectAlike_iff {f : Field} {d d' : Dataset} : SelectAlike f d d' ↔
    ∀ s, (d'.movements.map (get · f)).map (fun v => v.same (.text s)) =
      (d.movements.map (get · f)).map fun v => v.same (.text s) := by
  refine forall_congr' fun s => ?_
  simp only [read_literal, Except.ok.injEq, exists_eq_left', holds_literal, List.map_map,
    Function.comp_def]

/-- A file with a table of coded movements and one with a list of records of them give these
movements in order. The table keeps their codes, the list takes them for numbers. So the list keeps
the codes of a field exactly if all of them are stable, and only then do the filters for codes in
this field select the same movements of either. -/
theorem ofFile_codes {table list : String} {qs : List Part} (hp : Part.Suffice ps)
    (hq : Part.Suffice qs) (h : ∀ m ∈ ms, m.IsCoded) (htable : files.HoldsTable table ps ms)
    (hlist : files.HoldsList list qs ms) :
    ∃ d d', ofFile files table = .ok d ∧ ofFile files list = .ok d' ∧
      d.movements.map yearPeriod = ms.map yearPeriod ∧
      d'.movements.map yearPeriod = ms.map yearPeriod ∧
      ∀ f ∈ Field.codes,
        d.movements.map (get · f) = ms.map (get · f) ∧
        d'.movements.map (get · f) = ms.map (fun m => throughNumber (m.code f)) ∧
        (d'.movements.map (get · f) = ms.map (get · f) ↔ ∀ m ∈ ms, IsStable (m.code f)) ∧
        (SelectAlike f d d' ↔ ∀ m ∈ ms, IsStable (m.code f)) := by
  obtain ⟨d, hd, hkept⟩ := exists_ofFile_table hp h htable
  obtain ⟨d', hd', hkept'⟩ := exists_ofFile_list hq h hlist
  refine ⟨d, d', hd, hd', map_eq_of_forall₂ (fun _ _ hm => hm.yearPeriod) hkept,
    map_eq_of_forall₂ (fun _ _ hm => hm.yearPeriod) hkept', fun f hf => ?_⟩
  have htexts : ms.map (get · f) = ms.map fun m => .text (m.code f) :=
    List.map_congr_left fun m hm => ((h m hm).codes f hf).1
  have hcodes := map_eq_of_forall₂ (fun _ _ hm => hm.codes f hf) hkept
  have hcodes' := map_eq_of_forall₂ (fun _ _ hm => hm.codes f hf) hkept'
  have hstable : ∀ m ∈ ms, (throughNumber (m.code f) = .text (m.code f) ↔ IsStable (m.code f)) :=
    fun m hm => throughNumber_eq_iff ((h m hm).codes f hf).2
  refine ⟨hcodes.trans htexts.symm, hcodes', ?_, ?_⟩
  · rw [hcodes', htexts, List.map_inj_left]
    exact forall₂_congr hstable
  · rw [selectAlike_iff, hcodes, hcodes']
    simp only [List.map_map, List.map_inj_left, Function.comp_apply]
    constructor
    · intro hselect m hm
      have hself := hselect (m.code f) m hm
      rw [(Value.same_text (v := .text (m.code f)) (.inr ⟨m.code f, rfl⟩)).2 rfl] at hself
      exact (hstable m hm).1 ((Value.same_text (.inr ⟨m.code f, rfl⟩)).1 hself)
    · intro hall s m hm
      rw [(hstable m hm).2 (hall m hm)]

def nameless : List Part :=
  [.amount, .year, .period, .field .code1, .field .code2, .field .code3, .field .accountCode]

theorem suffice_nameless : Part.Suffice nameless :=
  ⟨by decide, by decide, by decide, by decide⟩

def padded : Movement :=
  ofFields (some (.whole 5)) 2024 1 fun f => if f ∈ Field.codes then .text "070" else .null

theorem isCoded_padded : padded.IsCoded := by
  refine ⟨Value.isAmount_whole ⟨5, 0, by decide, by decide, rfl⟩, fun f hf => ?_⟩
  have hcode : padded.get f = .text "070" := by
    rw [padded, get_ofFields, if_pos hf]
  rw [code, hcode]
  exact ⟨rfl, by decide, List.all_eq_true.1 (by decide)⟩

def ledgers : Files := [
  ("ledger.csv",
    "amount,year,period,code1,code2,code3,account_code\n5,2024,1,070,070,070,070\n"),
  ("ledger.json",
    "[\x7b\"amount\": 5, \"year\": 2024, \"period\": 1, \"code1\": \"070\", " ++
    "\"code2\": \"070\", \"code3\": \"070\", \"account_code\": \"070\"\x7d]")]

theorem holdsTable_ledgers : ledgers.HoldsTable "ledger.csv" nameless [padded] := by
  have hread : (ledgers.opened "ledger.csv").toOption.bind (fun text => (Csv.read text).toOption.map
      fun t => (t.names, t.lines)) = some (nameless.map Part.name,
        [nameless.map fun p => (padded.part p).cell]) := by decide +kernel
  obtain ⟨text, htext, hread⟩ := Option.bind_eq_some_iff.1 hread
  obtain ⟨t, ht, htable⟩ := Option.map_eq_some_iff.1 hread
  refine ⟨by decide +kernel, text, eq_ok_of_toOption htext, eq_ok_of_toOption (ht.trans ?_)⟩
  obtain ⟨hnames, hlines⟩ := Prod.mk.inj htable
  rw [← hnames, List.map_singleton, ← hlines]

theorem holdsList_ledgers : ledgers.HoldsList "ledger.json" nameless [padded] := by
  have hread : (ledgers.opened "ledger.json").toOption.bind
      (fun text => (Json.read text).toOption) =
      some (.list [.map (nameless.map fun p => (p.key, padded.part p))]) := by decide +kernel
  obtain ⟨text, htext, hread⟩ := Option.bind_eq_some_iff.1 hread
  exact ⟨by decide +kernel, text, eq_ok_of_toOption htext, eq_ok_of_toOption hread⟩

theorem ofFile_codes_ledgers : Part.Suffice nameless ∧ (∀ m ∈ [padded], m.IsCoded) ∧
    ledgers.HoldsTable "ledger.csv" nameless [padded] ∧
    ledgers.HoldsList "ledger.json" nameless [padded] ∧
    ∃ d', ofFile ledgers "ledger.json" = .ok d' ∧
      d'.movements.map (get · .code1) = [throughNumber "070"] := by
  have hcoded : ∀ m ∈ [padded], m.IsCoded := by
    intro m hm
    rw [List.mem_singleton.1 hm]
    exact isCoded_padded
  obtain ⟨d, d', -, hd', -, -, hcodes⟩ := ofFile_codes suffice_nameless suffice_nameless hcoded
    holdsTable_ledgers holdsList_ledgers
  exact ⟨suffice_nameless, hcoded, holdsTable_ledgers, holdsList_ledgers, d', hd',
    (hcodes .code1 (by decide)).2.1⟩

/-- The table keeps the code and the list does not, and a filter for it selects the movement of the
table alone. -/
theorem ofFile_ledgers_ne : padded.IsCoded ∧
    ledgers.HoldsTable "ledger.csv" nameless [padded] ∧
    ledgers.HoldsList "ledger.json" nameless [padded] ∧
    ∃ d d', ofFile ledgers "ledger.csv" = .ok d ∧ ofFile ledgers "ledger.json" = .ok d' ∧
      d.movements.map (get · .code1) = [.text "070"] ∧
      d'.movements.map (get · .code1) = [.text "70"] ∧ ¬ SelectAlike .code1 d d' := by
  have htable : (ofFile ledgers "ledger.csv").toOption.map
      (fun d => d.movements.map (get · .code1)) = some [.text "070"] := by decide +kernel
  have hlist : (ofFile ledgers "ledger.json").toOption.map
      (fun d => d.movements.map (get · .code1)) = some [.text "70"] := by decide +kernel
  obtain ⟨d, hd, hcodes⟩ := Option.map_eq_some_iff.1 htable
  obtain ⟨d', hd', hcodes'⟩ := Option.map_eq_some_iff.1 hlist
  refine ⟨isCoded_padded, holdsTable_ledgers, holdsList_ledgers, d, d', eq_ok_of_toOption hd,
    eq_ok_of_toOption hd', hcodes, hcodes', fun hselect => ?_⟩
  have hsame := selectAlike_iff.1 hselect "070"
  rw [hcodes, hcodes'] at hsame
  exact absurd hsame (by decide +kernel)

end Dataset
end LedgerReport
