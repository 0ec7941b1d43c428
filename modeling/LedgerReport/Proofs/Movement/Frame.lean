import LedgerReport.Proofs.Movement.Record
/-!
Tables of records against the records.

A table gives every record every column. Its cells are read like what the records hold there
(`AreSmall.exists_cells`), but of several columns for one name the last one counts for every record,
also for one whose value stands in an earlier column. So a table keeps the records exactly if for
each of them the last column for a name is read like its own last value (`Frame.Keeps`), as it is
where all records spell the name in the same way.
-/

set_option autoImplicit false

namespace LedgerReport

theorem Key.same_text {k : Key} {s : String} : k.same (.text s) = true ↔ k = .text s := by
  cases k <;> simp [Key.same, Key.number?]

namespace Frame
open Movement
variable {rs : List Entries} {r : Entries} {k : Key} {name : String}

def held? (r : Entries) (k : Key) : Option Value := (r.find? fun e => e.1.same k).map (·.2)

theorem isMissing_missing : missing.isMissing = true := by decide

theorem readAlike_widened {v : Value} (hv : isNumber v = true)
    (h : ∀ n, v = .number (.whole n) → n.natAbs < 2 ^ 53) : v.ReadAlike (widened v) := by
  cases v with
  | number n =>
    cases n with
    | whole n => exact Value.readAlike_widened (h n rfl)
    | real x => exact .refl _
  | _ => cases hv

theorem complete_of_whole {values : List (Option Value)}
    (h : ∀ v ∈ values, ∃ n, v = some (.number (.whole n))) :
    (((values.filterMap id).filter fun v => !v.isMissing).length == values.length &&
      ((values.filterMap id).filter fun v => !v.isMissing).all isWhole) = true := by
  induction values with
  | nil => rfl
  | cons v values ih =>
    obtain ⟨hv, hvalues⟩ := List.forall_mem_cons.1 h
    obtain ⟨n, rfl⟩ := hv
    simpa [Value.isMissing, Number.isNaN, isWhole] using ih hvalues

/-- Cells relate to the values they are made from as missing values relate to each other and numbers
to their floating-point forms. Whole numbers alone keep their form. -/
theorem exists_cell {R : Value → Value → Prop} {values : List (Option Value)}
    (hself : ∀ v, R v v)
    (hmissing : ∀ {v w}, v.isMissing = true → w.isMissing = true → R v w)
    (hwide : (∃ v ∈ values, ∀ n, v ≠ some (.number (.whole n))) →
      ∀ v, some v ∈ values → isNumber v = true → R v (widened v)) :
    ∃ cell : Option Value → Value, typed values = values.map cell ∧
      ∀ v ∈ values, R (v.getD .null) (cell v) := by
  have hgiven : ∀ {p : Value → Bool}, (values.filterMap id).all p = true →
      ∀ v, some v ∈ values → p v = true := fun hp v hv =>
    List.all_eq_true.1 hp v (List.mem_filterMap.2 ⟨some v, hv, rfl⟩)
  have habsent : R .null missing := hmissing rfl isMissing_missing
  have hfilled : ∀ v : Option Value, R (v.getD .null) (v.getD missing) := by
    intro v
    cases v with
    | none => exact habsent
    | some v => exact hself v
  unfold typed
  dsimp only
  split
  next hnull =>
    refine ⟨_, rfl, fun v hv => ?_⟩
    split
    · -- only null and absent values are read like a missing one
      cases v with
      | none => exact habsent
      | some v =>
        have hv := hgiven hnull v hv
        cases v <;> first | exact habsent | cases hv
    · exact hfilled v
  next =>
    split
    next hnumbers =>
      split
      · exact ⟨_, rfl, fun v _ => hfilled v⟩
      next hnarrow =>
      have hother : ∃ v ∈ values, ∀ n, v ≠ some (.number (.whole n)) := by
        by_contra hall
        refine hnarrow (complete_of_whole fun v hv => ?_)
        by_contra hn
        exact hall ⟨v, hv, fun n h => hn ⟨n, h⟩⟩
      refine ⟨_, rfl, fun v hv => ?_⟩
      cases v with
      | none => exact habsent
      | some v =>
        have hnumber := hgiven hnumbers v hv
        dsimp only
        split
        next hm => exact hmissing hm isMissing_missing
        next hm =>
          rw [Bool.eq_false_iff.2 hm, Bool.or_false] at hnumber
          exact hwide hother v hv hnumber
    next =>
      split
      · refine ⟨_, rfl, fun v _ => ?_⟩
        cases v with
        | none => exact habsent
        | some v =>
          dsimp only
          split
          next hm => exact hmissing hm isMissing_missing
          next => exact hself v
      · exact ⟨_, rfl, fun v _ => hfilled v⟩

def IsSmall : Value → Prop
  | .number (.whole n) => n.natAbs < 2 ^ 53
  | _ => True

instance : DecidablePred IsSmall
  | .number (.whole n) => inferInstanceAs (Decidable (n.natAbs < 2 ^ 53))
  | .number (.real _) | .null | .boolean _ | .text _ | .list _ | .map _ => .isTrue trivial

/-- Whether the whole numbers of records have at most 53 bits. -/
def AreSmall (rs : List Entries) : Prop := ∀ r ∈ rs, ∀ e ∈ r, IsSmall e.2

instance (rs : List Entries) : Decidable (AreSmall rs) :=
  inferInstanceAs (Decidable (∀ r ∈ rs, ∀ e ∈ r, IsSmall e.2))

def row (rs : List Entries) (cell : Key → Option Value → Value) (r : Entries) : Entries :=
  (columns rs).map fun k => (k, cell k (held? r k))

/-- The cells of a table relate to what the records hold as those of its columns do. -/
theorem exists_cells {R : Value → Value → Prop}
    (hself : ∀ v, R v v)
    (hmissing : ∀ {v w}, v.isMissing = true → w.isMissing = true → R v w)
    (hwide : ∀ k, (∃ r ∈ rs, ∀ n, held? r k ≠ some (.number (.whole n))) →
      ∀ r ∈ rs, ∀ v, held? r k = some v → isNumber v = true → R v (widened v)) :
    ∃ cell : Key → Option Value → Value, records rs = rs.map (row rs cell) ∧
      ∀ r ∈ rs, ∀ k, R ((held? r k).getD .null) (cell k (held? r k)) := by
  have hcolumn : ∀ k, ∃ cell : Option Value → Value, typed (column rs k) = (column rs k).map cell ∧
      ∀ v ∈ column rs k, R (v.getD .null) (cell v) := by
    refine fun k => exists_cell hself hmissing fun hother v hv hnumber => ?_
    obtain ⟨r, hr, hheld⟩ := List.mem_map.1 hv
    obtain ⟨_, hmem, hother⟩ := hother
    obtain ⟨r', hr', rfl⟩ := List.mem_map.1 hmem
    exact hwide k ⟨r', hr', hother⟩ r hr v hheld hnumber
  choose cell htyped halike using hcolumn
  refine ⟨cell, ?_, fun r hr k => halike k _ (List.mem_map.2 ⟨r, hr, rfl⟩)⟩
  refine List.ext_getElem (by simp [records]) fun i hi hi' => ?_
  have hlt : i < rs.length := by simpa using hi'
  simp only [records, row, List.getElem_map, List.getElem_range, htyped, List.map_map]
  rw [List.map_prod_left_eq_zip]
  congr 1
  refine List.map_congr_left fun k _ => ?_
  simp [column, held?, hlt]

/-- Where whole numbers have at most 53 bits, cells are read like what the records hold. -/
theorem AreSmall.exists_cells (h : AreSmall rs) : ∃ cell : Key → Option Value → Value,
    records rs = rs.map (row rs cell) ∧
      ∀ r ∈ rs, ∀ k, ((held? r k).getD .null).ReadAlike (cell k (held? r k)) := by
  refine Frame.exists_cells .refl Value.readAlike_of_isMissing
    fun k _ r hr v hheld hnumber => readAlike_widened hnumber fun n hn => ?_
  obtain ⟨e, he, rfl⟩ := Option.map_eq_some_iff.1 hheld
  have hsmall := h r hr e (List.mem_of_find?_eq_some he)
  rw [hn] at hsmall
  exact hsmall

def lastColumn? (rs : List Entries) (name : String) : Option Key :=
  (columns rs).reverse.find? fun k => recordName k == name

def held (rs : List Entries) (r : Entries) (name : String) : Value :=
  ((lastColumn? rs name).bind (held? r)).getD .null

theorem recordValue_row {cell : Key → Option Value → Value}
    (h : ∀ k, ((held? r k).getD .null).ReadAlike (cell k (held? r k))) (name : String) :
    (held rs r name).ReadAlike (recordValue (row rs cell r) name) := by
  have hvalue : recordValue? (row rs cell r) name =
      (lastColumn? rs name).map fun k => cell k (held? r k) := by
    rw [recordValue?, row, ← List.map_reverse, List.find?_map, Option.map_map]
    rfl
  rw [recordValue, hvalue, held]
  cases lastColumn? rs name with
  | none => exact .refl .null
  | some k => exact h k

/-- Whether a table of records keeps one of them: in the columns that count, it has what is read
like its own values. -/
structure Keeps (rs : List Entries) (r : Entries) : Prop where
  amount : (held rs r "amount").recordAmount = (recordValue r "amount").recordAmount
  year : (held rs r "year").toWhole = (recordValue r "year").toWhole
  period : (held rs r "period").toWhole = (recordValue r "period").toWhole
  fields : ∀ f : Field, (held rs r f.name).recordText = (recordValue r f.name).recordText

theorem ofRecord_row_iff {cell : Key → Option Value → Value}
    (h : ∀ k, ((held? r k).getD .null).ReadAlike (cell k (held? r k))) {m : Movement}
    (hm : ofRecord r = .ok m) : ofRecord (row rs cell r) = .ok m ↔ Keeps rs r := by
  obtain ⟨hamount, hyear, hperiod, hfields⟩ := ofRecord_eq_ok_iff.1 hm
  have hread : ∀ name, (held rs r name).ReadAlike (recordValue (row rs cell r) name) :=
    recordValue_row h
  rw [ofRecord_eq_ok_iff, ← (hread "amount").amount, ← (hread "year").whole,
    ← (hread "period").whole, ← hamount, ← hyear, ← hperiod]
  constructor
  · rintro ⟨ha, hy, hp, hf⟩
    refine ⟨ha, hy, hp, fun f => ?_⟩
    rw [(hread f.name).text, hf f, hfields f]
  · rintro ⟨ha, hy, hp, hf⟩
    refine ⟨ha, hy, hp, fun f => ?_⟩
    rw [← (hread f.name).text, hf f, hfields f]

theorem mem_columns_iff {s : String} : .text s ∈ columns rs ↔ ∃ r ∈ rs, ∃ e ∈ r, e.1 = .text s := by
  have hfold : ∀ (keys ks : List Key), Key.text s ∈ keys.foldl
      (fun ks k => if ks.any fun k' => k'.same k then ks else ks ++ [k]) ks ↔
        Key.text s ∈ ks ∨ Key.text s ∈ keys := by
    intro keys
    induction keys with
    | nil => simp
    | cons k keys ih =>
      intro ks
      rw [List.foldl_cons, ih, List.mem_cons]
      split
      next hk =>
        obtain ⟨k', hk', hsame⟩ := List.any_eq_true.1 hk
        have hin : Key.text s = k → Key.text s ∈ ks := by
          rintro rfl
          exact Key.same_text.1 hsame ▸ hk'
        tauto
      next => simp [or_assoc]
  rw [columns, hfold]
  simp [List.mem_flatMap]

def AreDistinct (r : Entries) : Prop := r.Pairwise fun a b => a.1.same b.1 = false

instance (r : Entries) : Decidable (AreDistinct r) := inferInstanceAs (Decidable (r.Pairwise _))

theorem AreDistinct.eq_of_text (h : AreDistinct r) {s : String} {a b : Key × Value} (ha : a ∈ r)
    (hb : b ∈ r) (has : a.1 = .text s) (hbs : b.1 = .text s) : a = b := by
  have hpair : r.Pairwise fun a b => ¬ (a.1 = .text s ∧ b.1 = .text s) := by
    refine h.imp fun hsame => ?_
    rintro ⟨ha, hb⟩
    rw [hb, Bool.eq_false_iff, Ne, Key.same_text] at hsame
    exact hsame ha
  by_contra hne
  have : Std.Symm fun a b : Key × Value => ¬ (a.1 = .text s ∧ b.1 = .text s) :=
    ⟨fun _ _ hab hba => hab hba.symm⟩
  exact hpair.forall ha hb hne ⟨has, hbs⟩

/-- Whether records spell each of their names in one way. -/
def SpellAlike (rs : List Entries) : Prop :=
  ∀ r ∈ rs, ∀ r' ∈ rs, ∀ e ∈ r, ∀ e' ∈ r', recordName e.1 ∈ recordNames →
    recordName e'.1 = recordName e.1 → e'.1 = e.1

instance (rs : List Entries) : Decidable (SpellAlike rs) :=
  inferInstanceAs (Decidable (∀ r ∈ rs, ∀ r' ∈ rs, ∀ e ∈ r, ∀ e' ∈ r',
    recordName e.1 ∈ recordNames → recordName e'.1 = recordName e.1 → e'.1 = e.1))

theorem recordValue?_of_lastColumn? (hr : r ∈ rs) (hn : name ∈ recordNames)
    (h : lastColumn? rs name = none) : recordValue? r name = none := by
  rw [recordValue?, Option.map_eq_none_iff, List.find?_eq_none]
  intro e he hname
  rw [beq_iff_eq] at hname
  obtain ⟨s, hkey⟩ := exists_text_of_recordName hn hname
  have hcolumn := mem_columns_iff.2 ⟨r, hr, e, List.mem_reverse.1 he, hkey⟩
  have hother := List.find?_eq_none.1 h _ (List.mem_reverse.2 hcolumn)
  simp [← hkey, hname] at hother

theorem exists_of_lastColumn? (hn : name ∈ recordNames) (h : lastColumn? rs name = some k) :
    recordName k = name ∧ ∃ s, k = .text s ∧ ∃ r ∈ rs, ∃ e ∈ r, e.1 = k := by
  have hk : recordName k = name := by simpa using List.find?_some h
  obtain ⟨s, rfl⟩ := exists_text_of_recordName hn hk
  exact ⟨hk, s, rfl, mem_columns_iff.1 (List.mem_reverse.1 (List.mem_of_find?_eq_some h))⟩

/-- The last value for a name is the first one under a key, where only that key is for the name. -/
theorem AreDistinct.find_eq (hd : AreDistinct r) {s : String}
    (hiff : ∀ e ∈ r, recordName e.1 = name ↔ e.1 = .text s) :
    r.reverse.find? (fun e => recordName e.1 == name) = r.find? fun e => e.1.same (.text s) := by
  cases hf : r.find? fun e => e.1.same (.text s) with
  | none =>
    refine List.find?_eq_none.2 fun e he hname => ?_
    have he := List.mem_reverse.1 he
    exact List.find?_eq_none.1 hf e he (Key.same_text.2 ((hiff e he).1 (by simpa using hname)))
  | some e =>
    have he := List.mem_of_find?_eq_some hf
    have hkey : e.1 = .text s := Key.same_text.1 (by simpa using List.find?_some hf)
    cases hl : r.reverse.find? fun e => recordName e.1 == name with
    | none =>
      have hother := List.find?_eq_none.1 hl e (List.mem_reverse.2 he)
      simp [(hiff e he).2 hkey] at hother
    | some last =>
      have hmem := List.mem_reverse.1 (List.mem_of_find?_eq_some hl)
      have hlastkey := (hiff last hmem).1 (by simpa using List.find?_some hl)
      rw [hd.eq_of_text hmem he hlastkey hkey]

theorem held_eq_recordValue (hs : SpellAlike rs) (hr : r ∈ rs) (hd : AreDistinct r)
    (hn : name ∈ recordNames) : held rs r name = recordValue r name := by
  unfold held recordValue
  cases hlast : lastColumn? rs name with
  | none =>
    rw [recordValue?_of_lastColumn? hr hn hlast]
    rfl
  | some k =>
    obtain ⟨hk, s, rfl, r', hr', e', he', hkey'⟩ := exists_of_lastColumn? hn hlast
    have hiff : ∀ e ∈ r, recordName e.1 = name ↔ e.1 = .text s := by
      intro e he
      constructor
      · intro hname
        rw [← hkey', hs r' hr' r hr e' he' e he (by rwa [hkey', hk]) (by rw [hname, hkey', hk])]
      · intro hkey
        rw [hkey, hk]
    rw [recordValue?, hd.find_eq hiff]
    rfl

theorem SpellAlike.keeps (hs : SpellAlike rs) (hr : r ∈ rs) (hd : AreDistinct r) : Keeps rs r := by
  have hvalue : ∀ name ∈ recordNames, held rs r name = recordValue r name :=
    fun name hn => held_eq_recordValue hs hr hd hn
  refine ⟨?_, ?_, ?_, fun f => ?_⟩
  · rw [hvalue "amount" (by simp [recordNames])]
  · rw [hvalue "year" (by simp [recordNames])]
  · rw [hvalue "period" (by simp [recordNames])]
  · rw [hvalue f.name (by simp [recordNames, Field.mem_all])]

end Frame

namespace Dataset
variable {rs : List Entries}

/-- A table of records that are accepted gives the dataset of the records exactly if it keeps each
of them, as it does if they spell each name in one way. -/
theorem ofFrame_eq_ofRecords_iff (rs : List Entries) (source : String)
    (haccepted : ∀ r ∈ rs, ∃ m, Movement.ofRecord r = .ok m) (hsmall : Frame.AreSmall rs) :
    (ofFrame rs source = ofRecords rs source ↔ ∀ r ∈ rs, Frame.Keeps rs r) ∧
    ((∀ r ∈ rs, Frame.AreDistinct r) → Frame.SpellAlike rs →
      ofFrame rs source = ofRecords rs source) := by
  obtain ⟨cell, hrecords, hcell⟩ := hsmall.exists_cells
  obtain ⟨ms, hms⟩ := mapM_ok haccepted
  have hframe : ofFrame rs source = ofRecords rs source ↔
      rs.mapM (fun r => Movement.ofRecord (Frame.row rs cell r)) = rs.mapM Movement.ofRecord := by
    have hrows : (rs.map (Frame.row rs cell)).mapM Movement.ofRecord =
        rs.mapM fun r => Movement.ofRecord (Frame.row rs cell r) := List.mapM_map
    unfold ofFrame ofRecords
    rw [hrecords, hrows, hms]
    cases rs.mapM fun r => Movement.ofRecord (Frame.row rs cell r) with
    | error e => simp [bind, Except.bind, pure, Except.pure]
    | ok ms' => simp [bind, Except.bind, pure, Except.pure]
  have hiff : ofFrame rs source = ofRecords rs source ↔ ∀ r ∈ rs, Frame.Keeps rs r := by
    rw [hframe, mapM_eq_mapM_iff haccepted]
    refine forall₂_congr fun r hr => ?_
    obtain ⟨m, hm⟩ := haccepted r hr
    rw [hm]
    exact Frame.ofRecord_row_iff (hcell r hr) hm
  exact ⟨hiff, fun hd hs => hiff.2 fun r hr => hs.keeps hr (hd r hr)⟩

def entry (name : String) (x : Float) (period : Int) : Entries :=
  [(.text name, .real x), (.text "year", .whole 2024), (.text "period", .whole period)]

def alike : List Entries :=
  [(.text "code1", .whole 700) :: entry "amount" 5.0 1, entry "amount" 3.0 2]

theorem ofFrame_eq_ofRecords_alike :
    (∀ r ∈ alike, ∃ m, Movement.ofRecord r = .ok m) ∧ Frame.AreSmall alike ∧
    (∀ r ∈ alike, Frame.AreDistinct r) ∧ Frame.SpellAlike alike ∧
    ofFrame alike "ledger" = ofRecords alike "ledger" := by
  have haccepted : ∀ r ∈ alike, (Movement.ofRecord r).isOk = true := by decide +kernel
  have hok : ∀ r ∈ alike, ∃ m, Movement.ofRecord r = .ok m :=
    fun r hr => exists_of_isOk (haccepted r hr)
  have hsmall : Frame.AreSmall alike := by decide +kernel
  have hdistinct : ∀ r ∈ alike, Frame.AreDistinct r := by decide +kernel
  have hspelled : Frame.SpellAlike alike := by decide +kernel
  have hiff := ofFrame_eq_ofRecords_iff alike "ledger" hok hsmall
  exact ⟨hok, hsmall, hdistinct, hspelled, hiff.2 hdistinct hspelled⟩

def unlike : List Entries := [entry "Amount" 5.0 1, entry "amount" 3.0 2]

theorem ofFrame_ne_ofRecords_unlike :
    (∀ r ∈ unlike, ∃ m, Movement.ofRecord r = .ok m) ∧ Frame.AreSmall unlike ∧
    (∀ r ∈ unlike, Frame.AreDistinct r) ∧
    (ofRecords unlike "ledger").toOption.map (fun d => d.movements.map Movement.amount) =
      some [some (.real 5.0), some (.real 3.0)] ∧
    (ofFrame unlike "ledger").toOption.map (fun d => d.movements.map Movement.amount) =
      some [none, some (.real 3.0)] ∧
    ofFrame unlike "ledger" ≠ ofRecords unlike "ledger" := by
  have haccepted : ∀ r ∈ unlike, (Movement.ofRecord r).isOk = true := by decide +kernel
  have hrecords : (ofRecords unlike "ledger").toOption.map
      (fun d => d.movements.map Movement.amount) = some [some (.real 5.0), some (.real 3.0)] := by
    decide +kernel
  have hframe : (ofFrame unlike "ledger").toOption.map
      (fun d => d.movements.map Movement.amount) = some [none, some (.real 3.0)] := by
    decide +kernel
  refine ⟨fun r hr => exists_of_isOk (haccepted r hr), by decide +kernel, by decide +kernel,
    hrecords, hframe, fun heq => ?_⟩
  rw [heq, hrecords] at hframe
  cases hframe

end Dataset
end LedgerReport
