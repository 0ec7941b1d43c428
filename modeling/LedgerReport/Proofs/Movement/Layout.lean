import LedgerReport.Proofs.Movement.Column
import LedgerReport.Proofs.Movement.RoundTrip
/-!
Movements laid out in columns.

Some parts of movements are laid out in a column each. The values of a column are read as that part
of the movements in whose place they stand (`Carries`), codes as what a function makes of them: the
cells of a table keep codes, the values of records are taken for numbers. From such columns the
movements are read in order (`Part.Suffice.exists_ofRecords`).
-/

set_option autoImplicit false

namespace LedgerReport
open Movement

def Field.codes : List Field := [.code1, .code2, .code3, .accountCode]

theorem textNames_eq : Column.textNames = Field.codes.map Field.name := rfl

namespace Movement

/-- Whether parts are those of a file: none twice, with a year, a period and all codes. -/
structure Part.Suffice (ps : List Part) : Prop where
  nodup : ps.Nodup
  year : .year ∈ ps
  period : .period ∈ ps
  codes : ∀ f ∈ Field.codes, .field f ∈ ps

def code (m : Movement) (f : Field) : String := (m.get f).display

/-- Whether a movement has codes in all fields for them, and an amount that can be read. -/
structure IsCoded (m : Movement) : Prop where
  amount : (Value.ofAmount m.amount).IsAmount
  codes : ∀ f ∈ Field.codes, m.get f = .text (m.code f) ∧ IsCode (m.code f)

/-- Whether a value is read as a part of a movement, codes as what `shown` makes of them. -/
def Carries (shown : String → Value) (m : Movement) : Part → Value → Prop
  | .amount, v => v.IsAmount
  | .year, v => v.toWhole = .ok m.year
  | .period, v => v.toWhole = .ok m.period
  | .field f, v => f ∈ Field.codes → v.recordText = shown (m.code f)

/-- Whether a movement has the year and the period of another, and what `shown` makes of its
codes. -/
structure Keeps (shown : String → Value) (m m' : Movement) : Prop where
  yearPeriod : m'.yearPeriod = m.yearPeriod
  codes : ∀ f ∈ Field.codes, m'.get f = shown (m.code f)

variable {ps : List Part} {ms : List Movement} {m : Movement} {shown : String → Value}

theorem Part.Suffice.exists_ofRecord (hp : Part.Suffice ps) {v : Part → Value}
    (h : ∀ p ∈ ps, Carries shown m p (v p)) :
    ∃ m', ofRecord (ps.map fun p => (p.key, v p)) = .ok m' ∧ Keeps shown m m' := by
  generalize hr : ps.map (fun p => (p.key, v p)) = r
  have hvalue : ∀ p ∈ ps, recordValue r p.name = v p := fun p hmem => hr ▸ recordValue_parts hmem v
  obtain ⟨a, ha⟩ : (recordValue r Part.amount.name).IsAmount := by
    by_cases hmem : .amount ∈ ps
    · rw [hvalue _ hmem]
      exact h .amount hmem
    · rw [← hr, recordValue_parts_of_not_mem hmem]
      exact Value.isAmount_of_isMissing rfl
  have hyear : (recordValue r Part.year.name).toWhole = .ok m.year :=
    (hvalue _ hp.year).symm ▸ h .year hp.year
  have hperiod : (recordValue r Part.period.name).toWhole = .ok m.period :=
    (hvalue _ hp.period).symm ▸ h .period hp.period
  refine ⟨ofFields a m.year m.period fun f => (recordValue r f.name).recordText,
    ofRecord_eq_ok_iff.2 ⟨ha, hyear, hperiod, fun f => by rw [get_ofFields]⟩, rfl, fun f hf => ?_⟩
  have hcode := h _ (hp.codes f hf) hf
  rwa [get_ofFields, show f.name = (Part.field f).name from rfl, hvalue _ (hp.codes f hf)]

theorem Part.Suffice.exists_ofRecords (hp : Part.Suffice ps) {column : Part → List Value}
    (h : ∀ p ∈ ps, List.Forall₂ (fun m v => Carries shown m p v) ms (column p)) (source : String) :
    ∃ d, Dataset.ofRecords (Column.records (ps.map fun p => (p.key, column p)) ms.length) source =
      .ok d ∧ List.Forall₂ (Keeps shown) ms d.movements := by
  have hrows : List.Forall₂ (fun m r => ∃ m', ofRecord r = .ok m' ∧ Keeps shown m m') ms
      (Column.records (ps.map fun p => (p.key, column p)) ms.length) := by
    refine List.forall₂_iff_get.2 ⟨by simp [Column.records], fun i hi hi' => ?_⟩
    simp only [Column.records, List.get_eq_getElem, List.getElem_map, List.getElem_range,
      List.map_map]
    refine hp.exists_ofRecord (v := fun p => (column p).getD i Frame.missing) fun p hmem => ?_
    obtain ⟨hlength, hcarries⟩ := List.forall₂_iff_get.1 (h p hmem)
    have hcell := hcarries i hi (hlength ▸ hi)
    rwa [List.getD_eq_getElem _ _ (hlength ▸ hi)]
  obtain ⟨ms', hms', hkept⟩ := exists_mapM_of_forall₂ hrows
  exact ⟨⟨ms', source⟩, bind_eq_ok.2 ⟨ms', hms', rfl⟩, hkept⟩

end Movement

def Value.cell : Value → String
  | .null => ""
  | v => v.display

namespace Column
variable {ps : List Part} {ms : List Movement}

theorem eraseDupsBy_of_pairwise {α : Type} {r : α → α → Bool} {xs : List α}
    (h : xs.Pairwise fun a b => r b a = false) : xs.eraseDupsBy r = xs := by
  induction xs with
  | nil => rfl
  | cons x xs ih =>
    obtain ⟨hx, hxs⟩ := List.pairwise_cons.1 h
    have hkept : (xs.filter fun b => r b x = false) = xs :=
      List.filter_eq_self.2 fun b hb => by simpa using hx b hb
    rw [List.eraseDupsBy_cons, hkept, ih hxs]

theorem ofTable_parts (hn : ps.Nodup) (ms : List Movement) :
    ofTable ⟨ps.map Part.name, ms.map fun m => ps.map fun p => (m.part p).cell⟩ =
      ps.map fun p => (p.name,
        values (textNames.contains p.name) (ms.map fun m => (m.part p).cell)) := by
  have hcolumns : (ps.map Part.name).zipIdx.map (fun n => (n.1, values (textNames.contains n.1)
      ((ms.map fun m => ps.map fun p => (m.part p).cell).map fun l => l.getD n.2 ""))) =
      ps.map fun p => (p.name,
        values (textNames.contains p.name) (ms.map fun m => (m.part p).cell)) := by
    refine List.ext_getElem (by simp) fun i hi hi' => ?_
    have hlt : i < ps.length := by simpa using hi'
    simp [hlt, Function.comp_def]
  unfold ofTable
  dsimp only
  rw [hcolumns]
  refine eraseDupsBy_of_pairwise (List.pairwise_map.2 (hn.imp fun hne => ?_))
  simpa using fun h => hne (Part.name_injective h).symm

theorem isAmountCell_cell {a : Amount} (h : (Value.ofAmount a).IsAmount) :
    IsAmountCell (Value.ofAmount a).cell := by
  cases a with
  | none => exact .inl rfl
  | some n =>
    cases n with
    | real x => exact .inr (.inl ⟨x, rfl⟩)
    | whole n => exact .inr (.inr ⟨n, rfl, h⟩)

/-- The values of a column of a table are read as the parts of movements that it holds. -/
theorem carries_values (h : ∀ m ∈ ms, m.IsCoded) (p : Part) :
    List.Forall₂ (fun m v => Carries .text m p v) ms
      (values (textNames.contains p.name) (ms.map fun m => (m.part p).cell)) := by
  have hwhole : ∀ part : Movement → Int,
      values false (ms.map fun m => (Value.whole (part m)).cell) =
        ms.map fun m => .whole (part m) := by
    intro part
    have hcells := values_whole (ms.map part)
    rwa [List.map_map, List.map_map] at hcells
  cases p with
  | amount =>
    refine forall₂_of_length (by rw [length_values, List.length_map]) ?_
    refine fun _ => values_amount fun c hc => ?_
    obtain ⟨m, hm, rfl⟩ := List.mem_map.1 hc
    exact isAmountCell_cell (h m hm).amount
  | year =>
    exact (hwhole year).symm ▸ List.forall₂_map_right_iff.2 (List.forall₂_same.2 fun m _ => rfl)
  | period =>
    exact (hwhole period).symm ▸ List.forall₂_map_right_iff.2 (List.forall₂_same.2 fun m _ => rfl)
  | field f =>
    by_cases hf : f ∈ Field.codes
    · have hname : textNames.contains f.name = true :=
        List.contains_iff_mem.2 (textNames_eq ▸ List.mem_map_of_mem hf)
      have hcells : ms.map (fun m => (m.get f).cell) = ms.map fun m => m.code f := by
        refine List.map_congr_left fun m hm => ?_
        rw [((h m hm).codes f hf).1]
        rfl
      change List.Forall₂ _ ms (values (textNames.contains f.name) (ms.map fun m => (m.get f).cell))
      rw [hname, hcells, values_text, List.map_map, List.forall₂_map_right_iff, List.forall₂_same]
      · exact fun m _ _ => rfl
      · intro c hc
        obtain ⟨m, hm, rfl⟩ := List.mem_map.1 hc
        exact ((h m hm).codes f hf).2
    · refine forall₂_of_length (by rw [length_values, List.length_map]) ?_
      exact fun _ _ _ hcode => absurd hcode hf

/-- Whether what a record holds in the column of a part is like that part of a movement. -/
def IsHeld (p : Part) (m : Movement) (held : Option Value) : Prop :=
  ∃ v, held = some v ∧ (m.part p).Alike v

theorem eq_map_of_isHeld (p : Part) (value : Movement → Value)
    (hvalue : ∀ m ∈ ms, ∀ v, (m.part p).Alike v → v = value m) {held : List (Option Value)}
    (h : List.Forall₂ (IsHeld p) ms held) : held = ms.map fun m => some (value m) := by
  have heq := map_eq_of_forall₂ (g := fun m => some (value m)) (k := id) (R := fun m o =>
    o = some (value m)) (fun _ _ => id) (((List.forall₂_and_left _ _).2 ⟨hvalue, h⟩).imp ?_)
  · simpa using heq
  · rintro m - ⟨hm, v, rfl, hv⟩
    rw [hm v hv]

/-- The values of a column of records are read as the parts of the movements that these hold, but
codes as numbers. -/
theorem carries_converted (h : ∀ m ∈ ms, m.IsCoded) {p : Part} {held : List (Option Value)}
    (hheld : List.Forall₂ (IsHeld p) ms held) :
    List.Forall₂ (fun m v => Carries throughNumber m p v) ms (converted (Frame.typed held)) := by
  have hlength : (converted (Frame.typed held)).length = ms.length := by
    rw [length_converted, Frame.length_typed, hheld.length_eq]
  have hwhole : ∀ part : Movement → Int, held = ms.map (fun m => some (.whole (part m))) →
      converted (Frame.typed held) = ms.map fun m => .whole (part m) := by
    intro part heq
    have htyped := Frame.typed_whole (ms.map part)
    rw [List.map_map, List.map_map] at htyped
    rw [heq]
    refine (congrArg converted htyped).trans (converted_whole fun v hv => ?_)
    obtain ⟨m, -, rfl⟩ := List.mem_map.1 hv
    rfl
  cases p with
  | amount =>
    refine forall₂_of_length hlength fun _ => converted_amount (Frame.typed_amount ?_)
    intro o ho
    obtain ⟨m, hm, v, rfl, hv⟩ := exists_of_forall₂ hheld.flip o ho
    exact hv.isAmount (Value.isScalar_ofAmount m.amount) (h m hm).amount
  | year =>
    rw [hwhole year (eq_map_of_isHeld .year _ (fun m _ v hv => hv.eq_whole) hheld)]
    exact List.forall₂_map_right_iff.2 (List.forall₂_same.2 fun m _ => rfl)
  | period =>
    rw [hwhole period (eq_map_of_isHeld .period _ (fun m _ v hv => hv.eq_whole) hheld)]
    exact List.forall₂_map_right_iff.2 (List.forall₂_same.2 fun m _ => rfl)
  | field f =>
    by_cases hf : f ∈ Field.codes
    · have hcodes : ∀ c ∈ ms.map (code · f), IsCode c := by
        intro c hc
        obtain ⟨m, hm, rfl⟩ := List.mem_map.1 hc
        exact ((h m hm).codes f hf).2
      have heq := eq_map_of_isHeld (.field f) (fun m => .text (m.code f)) (fun m hm v hv => by
        rw [part, ((h m hm).codes f hf).1] at hv
        exact hv.eq_text) hheld
      have htyped := Frame.typed_text (ms.map (code · f))
      have hconverted := List.forall₂_map_left_iff.1 (converted_codes hcodes)
      rw [List.map_map] at htyped
      rw [heq]
      refine (htyped ▸ hconverted).imp fun m v hv _ => hv
    · exact forall₂_of_length hlength fun _ _ _ hcode => absurd hcode hf

end Column
end LedgerReport
