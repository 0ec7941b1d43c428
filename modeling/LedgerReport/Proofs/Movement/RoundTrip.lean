import LedgerReport.Proofs.Movement.Frame
import LedgerReport.Proofs.Movement.Normal
/-!
Datasets as tables, and back.

The records of a dataset name the same parts of every movement in the same order (`Part`), so the
table has one column for each part. Its cells are the values, but for missing ones, which may come
back as others (`Frame.Returns`). What comes back is read as the movements that went in, since they
are normal.
-/

set_option autoImplicit false

namespace LedgerReport

namespace Movement

inductive Part where
  | amount
  | year
  | period
  | field (f : Field)
  deriving DecidableEq

namespace Part

def all : List Part := amount :: year :: period :: Field.all.map field

def name : Part → String
  | amount => "amount"
  | year => "year"
  | period => "period"
  | field f => f.name

def key (p : Part) : Key := .text p.name

theorem mem_all (p : Part) : p ∈ all := by
  cases p with
  | field f => simp [all, Field.mem_all]
  | _ => simp [all]

theorem name_injective {p q : Part} (h : p.name = q.name) : p = q := by
  have hfind : ∀ p : Part, all.find? (fun q => q.name == p.name) = some p := by
    intro p
    cases p with
    | field f => cases f <;> decide
    | _ => decide
  rw [← Option.some.injEq, ← hfind p, ← hfind q, h]

theorem key_same {p q : Part} : p.key.same q.key = true ↔ p = q := by
  rw [key, key, Key.same_text, Key.text.injEq]
  exact ⟨name_injective, congrArg name⟩

end Part

section
variable {m : Movement}

def part (m : Movement) : Part → Value
  | .amount => .ofAmount m.amount
  | .year => .whole m.year
  | .period => .whole m.period
  | .field f => m.get f

theorem record_eq (m : Movement) : m.record = Part.all.map fun p => (p.key, m.part p) := rfl

theorem recordName_key (p : Part) : recordName p.key = p.name := by
  cases p with
  | field f => cases f <;> decide +kernel
  | _ => decide +kernel

/-- A record with values for parts gives them under their names, and nothing under others. -/
theorem recordValue?_parts (ps : List Part) (v : Part → Value) (p : Part) :
    recordValue? (ps.map fun q => (q.key, v q)) p.name = if p ∈ ps then some (v p) else none := by
  rw [recordValue?, ← List.map_reverse, List.find?_map, Option.map_map]
  cases hfind : ps.reverse.find? ((fun e => recordName e.1 == p.name) ∘ fun q => (q.key, v q)) with
  | none =>
    rw [if_neg fun hp => ?_]
    · rfl
    · have hother := List.find?_eq_none.1 hfind p (List.mem_reverse.2 hp)
      simp [recordName_key] at hother
  | some q =>
    have hq : q = p := Part.name_injective (by simpa [recordName_key] using List.find?_some hfind)
    have hmem := List.mem_reverse.1 (List.mem_of_find?_eq_some hfind)
    rw [if_pos (hq ▸ hmem), ← hq]
    rfl

theorem recordValue_parts {ps : List Part} {p : Part} (hp : p ∈ ps) (v : Part → Value) :
    recordValue (ps.map fun q => (q.key, v q)) p.name = v p := by
  rw [recordValue, recordValue?_parts, if_pos hp]
  rfl

theorem recordValue_parts_of_not_mem {ps : List Part} {p : Part} (hp : p ∉ ps)
    (v : Part → Value) : recordValue (ps.map fun q => (q.key, v q)) p.name = .null := by
  rw [recordValue, recordValue?_parts, if_neg hp]
  rfl

theorem recordValue_record (m : Movement) (p : Part) : recordValue m.record p.name = m.part p :=
  recordValue_parts p.mem_all m.part

theorem IsNormal.recordAmount (h : m.IsNormal) (hnan : ∀ n, m.amount = some n → n.isNaN = false) :
    (Value.ofAmount m.amount).recordAmount = .ok m.amount := by
  have hreal := h.amount.eq_ofReal
  cases hx : Amount.real? m.amount with
  | none =>
    rw [hx] at hreal
    rw [hreal]
    rfl
  | some x =>
    rw [hx] at hreal
    have hgiven : Value.isMissing (.number (.real x)) = false := hnan _ hreal
    rw [hreal]
    exact Value.recordAmount_of_given trivial hgiven

theorem IsNormal.recordText (h : m.IsNormal) (f : Field) : (m.get f).recordText = m.get f := by
  obtain hf | ⟨s, hf⟩ := h.fields f
  · rw [hf]
    rfl
  · rw [hf]
    rfl

/-- A normal movement whose amount is a number, if there is one, is the movement of its record. -/
theorem IsNormal.ofRecord_record (h : m.IsNormal)
    (hnan : ∀ n, m.amount = some n → n.isNaN = false) : ofRecord m.record = .ok m := by
  rw [ofRecord_eq_ok_iff]
  refine ⟨?_, ?_, ?_, fun f => ?_⟩
  · exact (recordValue_record m .amount).symm ▸ h.recordAmount hnan
  · exact (recordValue_record m .year).symm ▸ rfl
  · exact (recordValue_record m .period).symm ▸ rfl
  · exact (recordValue_record m (.field f)).symm ▸ h.recordText f

/-- The whole numbers of a normal movement are the same parts as those of any other. -/
theorem IsNormal.exists_whole (h : m.IsNormal) {p : Part} {n : Int}
    (hp : m.part p = .number (.whole n)) (m' : Movement) :
    ∃ n', m'.part p = .number (.whole n') := by
  cases p with
  | amount =>
    have hreal := h.amount.eq_ofReal
    cases hx : Amount.real? m.amount <;> rw [part, hreal, hx] at hp <;> cases hp
  | year => exact ⟨_, rfl⟩
  | period => exact ⟨_, rfl⟩
  | field f =>
    obtain hf | ⟨s, hf⟩ := h.fields f <;> rw [part, hf] at hp <;> cases hp

end

end Movement

namespace Frame
open Movement

def Returned (v w : Value) : Prop := w = v ∨ v.isMissing = true ∧ w.isMissing = true

theorem Returned.readAlike {v w : Value} (h : Returned v w) : v.ReadAlike w := by
  obtain rfl | ⟨hv, hw⟩ := h
  · exact .refl w
  · exact Value.readAlike_of_isMissing hv hw

/-- Whether a record comes back: with the same keys in the same order, and their values. -/
def Return (r back : Entries) : Prop :=
  List.Forall₂ (fun e e' => e'.1 = e.1 ∧ Returned e.2 e'.2) r back

theorem Return.readAlike {r back : Entries} (h : Return r back) (name : String) :
    (recordValue r name).ReadAlike (recordValue back name) := by
  have hfind : ∀ {es es' : Entries}, Return es es' →
      Value.ReadAlike (((es.find? fun e => recordName e.1 == name).map (·.2)).getD .null)
        (((es'.find? fun e => recordName e.1 == name).map (·.2)).getD .null) := by
    intro es es' hes
    induction hes with
    | nil => exact .refl .null
    | cons he _ ih =>
      rw [List.find?_cons, List.find?_cons, he.1]
      split
      · exact he.2.readAlike
      · exact ih
  exact hfind (List.forall₂_reverse_iff.2 h)

/-- Whether records come back from a table, in the same order. -/
def Returns (rs back : List Entries) : Prop := List.Forall₂ Return rs back

theorem foldl_parts (qs : List Part) {ps : List Part} (hn : (qs ++ ps).Nodup) :
    (ps.map Part.key).foldl (fun ks k => if ks.any fun k' => k'.same k then ks else ks ++ [k])
      (qs.map Part.key) = (qs ++ ps).map Part.key := by
  induction ps generalizing qs with
  | nil => simp
  | cons p ps ih =>
    have hnew : ((qs.map Part.key).any fun k => k.same p.key) = false := by
      rw [List.any_map, List.any_eq_false]
      intro q hq hsame
      have hqp : q = p := Part.key_same.1 hsame
      exact (List.nodup_append.1 hn).2.2 q hq p List.mem_cons_self hqp
    have hstep := ih (qs ++ [p]) (by simpa using hn)
    rw [List.map_cons, List.foldl_cons, hnew, if_neg Bool.false_ne_true]
    simpa using hstep

/-- Records that name the same parts in the same order make a table with these columns. -/
theorem columns_parts {rs : List Entries} {ps : List Part} (hn : ps.Nodup)
    (h : ∀ r ∈ rs, r.map (·.1) = ps.map Part.key) (hne : rs ≠ []) :
    columns rs = ps.map Part.key := by
  have hrest : ∀ ks : List Key, (∀ k ∈ ks, k ∈ ps.map Part.key) →
      ks.foldl (fun ks k => if ks.any fun k' => k'.same k then ks else ks ++ [k])
        (ps.map Part.key) = ps.map Part.key := by
    intro ks hks
    induction ks with
    | nil => rfl
    | cons k ks ih =>
      obtain ⟨hk, hrest⟩ := List.forall_mem_cons.1 hks
      obtain ⟨p, -, rfl⟩ := List.mem_map.1 hk
      have hseen : ((ps.map Part.key).any fun k' => k'.same p.key) = true :=
        List.any_eq_true.2 ⟨p.key, hk, Key.same_text.2 rfl⟩
      rw [List.foldl_cons, if_pos hseen]
      exact ih hrest
  obtain ⟨r, rs, rfl⟩ := List.exists_cons_of_ne_nil hne
  obtain ⟨hr, hrs⟩ := List.forall_mem_cons.1 h
  have hfirst := foldl_parts [] hn
  rw [columns, List.flatMap_cons, List.foldl_append, hr]
  rw [List.map_nil, List.nil_append] at hfirst
  rw [hfirst]
  refine hrest _ fun k hk => ?_
  obtain ⟨r', hr', hk⟩ := List.mem_flatMap.1 hk
  rwa [hrs r' hr'] at hk

theorem columns_records {ms : List Movement} (h : ms ≠ []) :
    columns (ms.map record) = Part.all.map Part.key := by
  refine columns_parts (by decide) ?_ (by simpa using h)
  intro r hr
  obtain ⟨m, -, rfl⟩ := List.mem_map.1 hr
  rw [record_eq, List.map_map]
  rfl

theorem held?_parts {ps : List Part} {p : Part} (hp : p ∈ ps) (v : Part → Value) :
    held? (ps.map fun q => (q.key, v q)) p.key = some (v p) := by
  rw [held?, List.find?_map, Option.map_map]
  cases hfind : ps.find? ((fun e : Key × Value => e.1.same p.key) ∘ fun q => (q.key, v q)) with
  | none =>
    exact absurd (Part.key_same.2 rfl) (List.find?_eq_none.1 hfind p hp)
  | some q =>
    have hsame := List.find?_some hfind
    obtain rfl : q = p := Part.key_same.1 hsame
    rfl

theorem held?_record (m : Movement) (k : Key) :
    held? m.record k = (Part.all.find? fun p => p.key.same k).map m.part := by
  rw [held?, record_eq, List.find?_map, Option.map_map]
  rfl

theorem held?_record_key (m : Movement) (p : Part) : held? m.record p.key = some (m.part p) :=
  held?_parts p.mem_all m.part

theorem returns_records {ms : List Movement} (h : ∀ m ∈ ms, m.IsNormal) :
    Returns (ms.map record) (records (ms.map record)) := by
  obtain ⟨cell, hrecords, hcell⟩ : ∃ cell : Key → Option Value → Value,
      records (ms.map record) = (ms.map record).map (row (ms.map record) cell) ∧
        ∀ r ∈ ms.map record, ∀ k, Returned ((held? r k).getD .null) (cell k (held? r k)) := by
    refine exists_cells (fun v => .inl rfl) (fun hv hw => .inr ⟨hv, hw⟩) ?_
    rintro k ⟨r', hr', hother⟩ r hr v hv hnumber
    obtain ⟨m', -, rfl⟩ := List.mem_map.1 hr'
    obtain ⟨m, hm, rfl⟩ := List.mem_map.1 hr
    -- a column with something else than whole numbers has none of them
    cases v with
    | number n =>
      cases n with
      | real x => exact .inl rfl
      | whole n =>
        rw [held?_record] at hv hother
        obtain ⟨p, hp, hpart⟩ := Option.map_eq_some_iff.1 hv
        obtain ⟨n', hn'⟩ := (h m hm).exists_whole hpart m'
        rw [hp] at hother
        exact absurd (congrArg some hn') (hother n')
    | _ => cases hnumber
  rw [hrecords, Returns, List.forall₂_map_right_iff, List.forall₂_same]
  intro r hr
  obtain ⟨m, hm, rfl⟩ := List.mem_map.1 hr
  have hne : ms ≠ [] := List.ne_nil_of_mem hm
  have hrow : row (ms.map record) cell m.record =
      Part.all.map fun p => (p.key, cell p.key (some (m.part p))) := by
    rw [row, columns_records hne, List.map_map]
    exact List.map_congr_left fun p _ => by rw [← held?_record_key, Function.comp_apply]
  rw [hrow, record_eq, Return, List.forall₂_map_left_iff, List.forall₂_map_right_iff,
    List.forall₂_same]
  intro p _
  have hreturned := hcell m.record hr p.key
  rw [held?_record_key] at hreturned
  exact ⟨rfl, hreturned⟩

end Frame

namespace Dataset
variable {rs : List Entries} {source : String} {d : Dataset}

theorem isNormal_of_ofRecords (h : ofRecords rs source = .ok d) :
    ∀ m ∈ d.movements, m.IsNormal := by
  obtain ⟨ms, hms, h⟩ := bind_eq_ok.1 h
  cases h
  intro m hm
  obtain ⟨r, -, hr⟩ := exists_of_forall₂ (forall₂_of_mapM_eq_ok hms).flip m hm
  exact Movement.ofRecord_isNormal hr

theorem ofRecords_of_returns {back : List Entries}
    (h : ∀ m ∈ d.movements, Movement.ofRecord m.record = .ok m)
    (hback : Frame.Returns d.records back) (source : String) :
    ofRecords back source = .ok ⟨d.movements, source⟩ := by
  have hrows : List.Forall₂
      (fun m r => Movement.ofRecord m.record = .ok m ∧ Frame.Return m.record r) d.movements back :=
    (List.forall₂_and_left _ _).2 ⟨h, List.forall₂_map_left_iff.1 hback⟩
  have hread : List.Forall₂ (fun m r => Movement.ofRecord r = .ok m) d.movements back :=
    hrows.imp fun m r hr => (Movement.ofRecord_congr fun name _ => hr.2.readAlike name).1 hr.1
  exact bind_eq_ok.2 ⟨_, mapM_eq_ok_of_forall₂ hread.flip, rfl⟩

/-- A dataset of records survives the way through a table, if none of its amounts is not a number.
Each of its movements is the movement of its record; the table gives the records back, but for what
a missing value is; and whatever comes back so gives the same movements in the same order, with the
same fingerprint and the same periods. -/
theorem ofFrame_records (h : ofRecords rs source = .ok d)
    (hnan : ∀ m ∈ d.movements, ∀ n, m.amount = some n → n.isNaN = false) :
    (∀ m ∈ d.movements, Movement.ofRecord m.record = .ok m) ∧
    Frame.Returns d.records (Frame.records d.records) ∧
    (∀ back source', Frame.Returns d.records back →
      ofRecords back source' = .ok ⟨d.movements, source'⟩) ∧
    ∀ source', ∃ d', ofFrame d.records source' = .ok d' ∧ d'.movements = d.movements ∧
      d'.fingerprint = d.fingerprint ∧ d'.periods = d.periods ∧ d'.latest? = d.latest? := by
  have hnormal := isNormal_of_ofRecords h
  have hrecord : ∀ m ∈ d.movements, Movement.ofRecord m.record = .ok m :=
    fun m hm => (hnormal m hm).ofRecord_record (hnan m hm)
  have hframe := Frame.returns_records hnormal
  refine ⟨hrecord, hframe, fun back source' hback => ofRecords_of_returns hrecord hback source',
    fun source' => ⟨⟨d.movements, source'⟩, ofRecords_of_returns hrecord hframe source', ?_⟩⟩
  exact ⟨rfl, rfl, rfl, rfl⟩

/-- Two records with codes and names that look like numbers, neither of which has all of them. -/
def sparse : List Entries := [
  [(.text "amount", .real 5.0), (.text "year", .whole 2024), (.text "period", .whole 1),
    (.text "code1", .real 700.0), (.text "name1", .text "1e3")],
  [(.text "amount", .null), (.text "year", .whole 2024), (.text "period", .whole 2),
    (.text "account_code", .text "nan")]]

theorem ofFrame_records_sparse : ∃ d, ofRecords sparse "ledger" = .ok d ∧
    (∀ m ∈ d.movements, ∀ n, m.amount = some n → n.isNaN = false) ∧
    ∃ d', ofFrame d.records "table" = .ok d' ∧ d'.movements = d.movements := by
  have hamounts : (ofRecords sparse "ledger").toOption.map
      (fun d => d.movements.map Movement.amount) = some [some (.real 5.0), none] := by
    decide +kernel
  obtain ⟨d, hd⟩ := exists_of_isOk (show (ofRecords sparse "ledger").isOk = true by decide +kernel)
  have hnan : ∀ m ∈ d.movements, ∀ n, m.amount = some n → n.isNaN = false := by
    intro m hm n hn
    rw [hd] at hamounts
    have hmem : m.amount ∈ [some (.real 5.0), none] :=
      Option.some.inj hamounts ▸ List.mem_map.2 ⟨m, hm, rfl⟩
    have hfive : n = .real 5.0 := by simpa [hn] using hmem
    rw [hfive]
    decide +kernel
  obtain ⟨-, -, -, hframe⟩ := ofFrame_records hd hnan
  obtain ⟨d', hd', hmovements, -⟩ := hframe "table"
  exact ⟨d, hd, hnan, d', hd', hmovements⟩

end Dataset
end LedgerReport
