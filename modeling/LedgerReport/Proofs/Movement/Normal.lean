import LedgerReport.Proofs.Amounts
import LedgerReport.Proofs.Decimal.Nan
import LedgerReport.Proofs.Movement.Record
/-!
The movements that records give.

A movement has a floating-point amount or none, and a text or null for every code and name
(`Movement.IsNormal`), whatever its record holds. What is there and what is missing depends on the
last value of the record for the name (`IsLast`): null and what is not a number count as missing.
A text that says that there is no number is not missing, and is read as such an amount.
-/

set_option autoImplicit false

namespace LedgerReport

namespace Decimal

/-- The size of a value is a whole number exactly if its significand holds enough factors two. -/
theorem scaled_eq_iff (m : Nat) (e d : Int) : d * twoTo (-e).toNat = m * twoTo e.toNat ↔
    ¬ (e < 0 ∧ m % twoTo (-e).toNat ≠ 0) ∧
      (if 0 ≤ e then (m : Int) * twoTo e.toNat else m / twoTo (-e).toNat) = d := by
  by_cases he : 0 ≤ e
  · have hneg : (-e).toNat = 0 := by omega
    have hone : twoTo 0 = 1 := rfl
    have hlt : ¬ e < 0 := by omega
    simp [he, hlt, hneg, hone, eq_comm]
  · have hpos : e.toNat = 0 := by omega
    have hone : twoTo 0 = 1 := rfl
    have hlt : e < 0 := by omega
    have hk : (0 : Int) < twoTo (-e).toNat := by exact_mod_cast Nat.two_pow_pos (-e).toNat
    simp only [if_neg he, hpos, hone, hlt, true_and, not_not, Nat.cast_one, mul_one]
    generalize twoTo (-e).toNat = k at hk
    constructor
    · intro h
      have hdvd : (k : Int) ∣ m := ⟨d, by rw [← h, mul_comm]⟩
      refine ⟨Nat.mod_eq_zero_of_dvd (Int.natCast_dvd_natCast.1 hdvd), ?_⟩
      rw [← h, Int.mul_ediv_cancel d hk.ne']
    · rintro ⟨hmod, rfl⟩
      exact Int.ediv_mul_cancel (Int.natCast_dvd_natCast.2 (Nat.dvd_of_mod_eq_zero hmod))

theorem compareWhole_eq_iff {n : Int} {b : Binary} :
    compareWhole n b = some .eq ↔ b.whole? = some n := by
  cases b with
  | nan => exact iff_of_false nofun nofun
  | infinite negative => cases negative <;> exact iff_of_false nofun nofun
  | finite negative m e =>
    simp only [compareWhole, Binary.whole?, Binary.truncate?, Option.some.injEq, compare_eq_iff_eq,
      Option.ite_none_left_eq_some]
    cases negative with
    | false => exact scaled_eq_iff m e n
    | true => simpa [neg_eq_iff_eq_neg] using scaled_eq_iff m e (-n)

end Decimal

namespace Number
variable {x : Float} {n : Int}

theorem same_whole_iff : (real x).same (whole n) = true ↔ (real x).whole? = some n := by
  have hswap : ∀ o : Option Ordering, o.map Ordering.swap = some .eq ↔ o = some .eq := by decide
  rw [same, beq_iff_eq, order, hswap]
  exact Decimal.compareWhole_eq_iff

theorem not_isNaN_of_whole? (h : (real x).whole? = some n) : x.isNaN = false := by
  cases hb : Decimal.Binary.ofFloat x with
  | finite negative m e => exact Decimal.not_isNaN_of_isFinite (Decimal.isFinite_of_ofFloat hb)
  | _ =>
    rw [whole?, hb] at h
    cases h

theorem not_isNaN_of_toFloat (h : (whole n).toFloat = .ok x) : x.isNaN = false := by
  have hnearest := Decimal.isMagnitude_nearest n.natAbs 1
  simp only [toFloat, Decimal.ofWhole?] at h
  split_ifs at h
  cases h
  exact Decimal.not_isNaN_signed hnearest _

end Number

namespace Value

def IsScalar : Value → Prop
  | .list _ | .map _ => False
  | _ => True

instance : DecidablePred IsScalar
  | .list _ | .map _ => .isFalse id
  | .null | .boolean _ | .number _ | .text _ => .isTrue trivial

section
variable {v : Value}

theorem recordText_of_isMissing (h : v.isMissing = true) : v.recordText = .null := if_pos h

theorem exists_recordText (h : v.isMissing = false) : ∃ s, v.recordText = .text s := by
  unfold recordText
  rw [if_neg (by simp [h])]
  split
  · split
    · exact ⟨_, rfl⟩
    · exact ⟨_, rfl⟩
  · exact ⟨_, rfl⟩

theorem recordText_eq_null_iff : v.recordText = .null ↔ v.isMissing = true := by
  refine ⟨fun h => ?_, recordText_of_isMissing⟩
  by_contra hm
  obtain ⟨s, hs⟩ := exists_recordText (Bool.eq_false_iff.2 hm)
  rw [h] at hs
  cases hs

theorem recordText_number {k : Number} {n : Int} (h : k.same (.whole n) = true) :
    (Value.number k).recordText = .text (toString n) := by
  cases k with
  | whole m =>
    obtain rfl : m = n := compare_eq_iff_eq.1 (Option.some.inj (eq_of_beq h))
    rfl
  | real x =>
    have hwhole := Number.same_whole_iff.1 h
    have hgiven : isMissing (.number (.real x)) = false := Number.not_isNaN_of_whole? hwhole
    simp [recordText, hgiven, hwhole]

theorem recordAmount_of_isMissing (h : v.isMissing = true) : v.recordAmount = .ok none := if_pos h

theorem recordAmount_of_given (hs : v.IsScalar) (h : v.isMissing = false) :
    v.recordAmount = v.toReal.map fun x => some (.real x) := by
  unfold recordAmount
  rw [if_neg (by simp [h])]
  cases v with
  | list items => cases hs
  | _ => rfl

theorem isReal_of_recordAmount {a : Amount} (h : v.recordAmount = .ok a) : a.IsReal := by
  unfold recordAmount at h
  have hreal : ∀ {y : Except Error Float},
      y.map (fun x => some (Number.real x)) = .ok a → a.IsReal := by
    intro y hy
    cases y with
    | error e => cases hy
    | ok x =>
      cases hy
      exact Amount.isReal_ofReal (some x)
  split at h
  · cases h
    exact Amount.isReal_ofReal none
  split at h
  · cases h
  · split at h
    · cases h
      exact Amount.isReal_ofReal none
    · cases h
  · cases h
  · exact hreal h

/-- What is given is read as a value that is not a number only if it is a text that says so. -/
theorem isNaN_iff_of_toReal {x : Float} (hgiven : v.isMissing = false) (h : v.toReal = .ok x) :
    x.isNaN = true ↔ ∃ s, v = .text s ∧ Numeral.SaysNan s := by
  have hnumber : x.isNaN = false → (∀ s, v ≠ .text s) →
      (x.isNaN = true ↔ ∃ s, v = .text s ∧ Numeral.SaysNan s) := by
    intro hx hv
    refine iff_of_false (Bool.eq_false_iff.1 hx) ?_
    rintro ⟨s, hs, -⟩
    exact hv s hs
  cases v with
  | text s =>
    have hread : Numeral.readReal? s = some x := by
      rw [toReal] at h
      split at h
      next y hy =>
        cases h
        exact hy
      next => cases h
    rw [Numeral.readReal?_isNaN_iff hread]
    simp
  | boolean b =>
    refine hnumber ?_ (by simp)
    cases h
    cases b <;> decide +kernel
  | number k =>
    refine hnumber ?_ (by simp)
    cases k with
    | whole n =>
      cases hx : (Number.whole n).toFloat with
      | error e => rw [toReal, hx] at h; cases h
      | ok y =>
        rw [toReal, hx] at h
        cases h
        exact Number.not_isNaN_of_toFloat hx
    | real y =>
      cases h
      exact hgiven
  | null | list | map => cases h

theorem recordAmount_eq_none_iff (hs : v.IsScalar) :
    v.recordAmount = .ok none ↔ v.isMissing = true := by
  refine ⟨fun h => ?_, recordAmount_of_isMissing⟩
  by_contra hm
  rw [recordAmount_of_given hs (Bool.eq_false_iff.2 hm)] at h
  cases hx : v.toReal <;> rw [hx] at h <;> cases h

theorem recordAmount_eq_some_iff (hs : v.IsScalar) {x : Float} :
    v.recordAmount = .ok (some (.real x)) ↔ v.isMissing = false ∧ v.toReal = .ok x := by
  cases hm : v.isMissing with
  | true => simp [recordAmount_of_isMissing hm]
  | false =>
    rw [recordAmount_of_given hs hm]
    cases v.toReal <;> simp [Except.map]

end

end Value

namespace Movement
variable {record : Entries} {name : String} {v : Value} {m : Movement}

def IsLast (record : Entries) (name : String) (v : Value) : Prop :=
  ∃ before k after, record = before ++ (k, v) :: after ∧ recordName k = name ∧
    ∀ e ∈ after, recordName e.1 ≠ name

theorem recordValue?_eq_some_iff : recordValue? record name = some v ↔ IsLast record name v := by
  simp only [recordValue?, Option.map_eq_some_iff, List.find?_eq_some_iff_append, IsLast]
  constructor
  · rintro ⟨⟨k, v⟩, ⟨hk, after, before, hrecord, hafter⟩, rfl⟩
    refine ⟨before.reverse, k, after.reverse, ?_, by simpa using hk, by simpa using hafter⟩
    simpa using congrArg List.reverse hrecord
  · rintro ⟨before, k, after, rfl, hk, hafter⟩
    refine ⟨(k, v), ⟨by simpa using hk, after.reverse, before.reverse, by simp, ?_⟩, rfl⟩
    simpa using hafter

theorem isLast_recordValue (h : (recordValue record name).isMissing = false) :
    IsLast record name (recordValue record name) := by
  rw [← recordValue?_eq_some_iff]
  unfold recordValue at h ⊢
  cases hv : recordValue? record name with
  | none =>
    rw [hv] at h
    cases h
  | some v => rfl

/-- Whether a record has nothing for a name: its last value for it is absent or missing. -/
def Lacks (record : Entries) (name : String) : Prop :=
  ∀ v, IsLast record name v → v.isMissing = true

theorem IsLast.recordValue_eq (h : IsLast record name v) : recordValue record name = v := by
  rw [recordValue, recordValue?_eq_some_iff.2 h]
  rfl

theorem isMissing_iff_lacks : (recordValue record name).isMissing = true ↔ Lacks record name := by
  constructor
  · intro h v hv
    rwa [← hv.recordValue_eq]
  · intro h
    by_contra hm
    exact hm (h _ (isLast_recordValue (Bool.eq_false_iff.2 hm)))

/-- Whether a movement has a floating-point amount or none, and a text or null in every field. -/
structure IsNormal (m : Movement) : Prop where
  amount : m.amount.IsReal
  fields : ∀ f : Field, m.get f = .null ∨ ∃ s, m.get f = .text s

theorem ofRecord_isNormal (h : ofRecord record = .ok m) : m.IsNormal := by
  obtain ⟨hamount, -, -, hfields⟩ := ofRecord_eq_ok_iff.1 h
  refine ⟨Value.isReal_of_recordAmount hamount, fun f => ?_⟩
  rw [← hfields f]
  cases hv : (recordValue record f.name).isMissing with
  | true => exact .inl (Value.recordText_of_isMissing hv)
  | false => exact .inr (Value.exists_recordText hv)

theorem isScalar_recordValue (h : ∀ e ∈ record, e.2.IsScalar) :
    (recordValue record name).IsScalar := by
  unfold recordValue recordValue?
  cases hv : record.reverse.find? fun e => recordName e.1 == name with
  | none => trivial
  | some e => exact h e (List.mem_reverse.1 (List.mem_of_find?_eq_some hv))

theorem exists_isLast_of_toWhole {n : Int} (h : (recordValue record name).toWhole = .ok n) :
    ∃ v, IsLast record name v ∧ v.toWhole = .ok n := by
  refine ⟨_, isLast_recordValue (Bool.eq_false_iff.2 fun hm => ?_), h⟩
  exact Value.toWhole_of_isMissing hm n h

/-- The movement of a record of scalar values is normal, and lacks what the record lacks. Its amount
is a number or an infinity, unless it is a text that says that there is no number. A number that
equals a whole number is the text of it, whatever its kind. -/
theorem ofRecord_scalars (hs : ∀ e ∈ record, e.2.IsScalar) (h : ofRecord record = .ok m) :
    m.IsNormal ∧ (m.amount = none ↔ Lacks record "amount") ∧
      (∀ x, m.amount = some (.real x) →
        (x.isNaN = true ↔ ∃ s, IsLast record "amount" (.text s) ∧ Numeral.SaysNan s)) ∧
      (∃ v, IsLast record "year" v ∧ v.toWhole = .ok m.year) ∧
      (∃ v, IsLast record "period" v ∧ v.toWhole = .ok m.period) ∧
      ∀ f : Field, (m.get f = .null ↔ Lacks record f.name) ∧
        ∀ k n, IsLast record f.name (.number k) → k.same (.whole n) = true →
          m.get f = .text (toString n) := by
  obtain ⟨hamount, hyear, hperiod, hfields⟩ := ofRecord_eq_ok_iff.1 h
  have hscalar : (recordValue record "amount").IsScalar := isScalar_recordValue hs
  refine ⟨ofRecord_isNormal h, ?_, fun x hx => ?_, exists_isLast_of_toWhole hyear,
    exists_isLast_of_toWhole hperiod, fun f => ⟨?_, fun k n hlast hsame => ?_⟩⟩
  · rw [← isMissing_iff_lacks, ← Value.recordAmount_eq_none_iff hscalar, hamount, Except.ok.injEq]
  · rw [hx, Value.recordAmount_eq_some_iff hscalar] at hamount
    obtain ⟨hgiven, hread⟩ := hamount
    rw [Value.isNaN_iff_of_toReal hgiven hread]
    refine exists_congr fun s => and_congr_left fun _ => ?_
    constructor
    · intro heq
      exact heq ▸ isLast_recordValue hgiven
    · exact IsLast.recordValue_eq
  · rw [← isMissing_iff_lacks, ← hfields f, Value.recordText_eq_null_iff]
  · rw [← hfields f, hlast.recordValue_eq, Value.recordText_number hsame]

def scalars : Entries := [
  (.text "Code1", .text "x"), (.text "Movement_Amount", .text " 5 "),
  (.text " YEAR ", .real 2024.0), (.text "month", .boolean true), (.text "code1", .real 700.0),
  (.text "name1", .null)]

theorem ofRecord_scalars_code : (∀ e ∈ scalars, e.2.IsScalar) ∧
    ∃ m, ofRecord scalars = .ok m ∧ m.IsNormal ∧ m.code1 = .text "700" ∧ m.name1 = .null := by
  have hscalar : ∀ e ∈ scalars, e.2.IsScalar := by decide
  obtain ⟨m, hm⟩ := exists_of_isOk (show (ofRecord scalars).isOk = true by decide +kernel)
  obtain ⟨hnormal, -, -, -, -, hfields⟩ := ofRecord_scalars hscalar hm
  have hcode : IsLast scalars Field.code1.name (.number (.real 700.0)) :=
    ⟨scalars.take 4, .text "code1", scalars.drop 5, rfl, by decide +kernel, by decide +kernel⟩
  have hname : IsLast scalars Field.name1.name .null :=
    ⟨scalars.take 5, .text "name1", [], rfl, by decide +kernel, nofun⟩
  refine ⟨hscalar, m, hm, hnormal, ?_, ?_⟩
  · exact (hfields .code1).2 (.real 700.0) 700 hcode (by decide +kernel)
  · refine (hfields .name1).1.2 fun v hv => ?_
    rw [← hv.recordValue_eq, hname.recordValue_eq]
    rfl

def undefined : Entries :=
  [(.text "amount", .text "nan"), (.text "year", .whole 2024), (.text "period", .whole 1)]

theorem isNaN_amount_undefined : (∀ e ∈ undefined, e.2.IsScalar) ∧
    ∃ m x, ofRecord undefined = .ok m ∧ m.amount = some (.real x) ∧ x.isNaN = true := by
  have hread : (ofRecord undefined).toOption.map Movement.amount =
      some (some (.real (0.0 / 0.0))) := by decide +kernel
  obtain ⟨m, hm⟩ := exists_of_isOk (show (ofRecord undefined).isOk = true by decide +kernel)
  rw [hm] at hread
  exact ⟨by decide, m, 0.0 / 0.0, hm, Option.some.inj hread, by decide +kernel⟩

end Movement
end LedgerReport
