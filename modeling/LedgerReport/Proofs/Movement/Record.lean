import LedgerReport.Proofs.Decimal.Whole
import LedgerReport.Proofs.Traversal
import LedgerReport.Movement.Frame
/-!
What a movement takes from a record.

A movement depends on a record through one value for each name (`ofRecord_eq_ok_iff`), and on these
only as far as they are read (`Value.ReadAlike`): a missing value is read like any other, a whole
number with at most 53 bits like its floating-point form. Only texts stand for the names.
-/

set_option autoImplicit false

namespace LedgerReport

theorem Number.truncate?_of_isNaN {x : Float} (h : x.isNaN = true) :
    (Number.real x).truncate? = none := by
  have hfinite : x.isFinite ≠ true := fun hf => by
    rw [Decimal.not_isNaN_of_isFinite hf] at h
    cases h
  rw [Number.truncate?]
  cases hx : Decimal.Binary.ofFloat x with
  | nan => rfl
  | infinite negative => rfl
  | finite negative m q => exact absurd (Decimal.isFinite_of_ofFloat hx) hfinite

namespace Value

/-- Whether two values are read alike as codes or names, as amounts, and as whole numbers. -/
structure ReadAlike (a b : Value) : Prop where
  text : a.recordText = b.recordText
  amount : a.recordAmount = b.recordAmount
  whole : ∀ n, a.toWhole = .ok n ↔ b.toWhole = .ok n

theorem ReadAlike.refl (v : Value) : ReadAlike v v := ⟨rfl, rfl, fun _ => Iff.rfl⟩

theorem toWhole_of_isMissing {v : Value} (h : v.isMissing = true) (n : Int) :
    v.toWhole ≠ .ok n := by
  cases v with
  | null => nofun
  | number k =>
    cases k with
    | whole m => cases h
    | real x =>
      rw [toWhole, Number.truncate?_of_isNaN h]
      nofun
  | _ => cases h

theorem readAlike_of_isMissing {a b : Value} (ha : a.isMissing = true) (hb : b.isMissing = true) :
    ReadAlike a b where
  text := by simp [recordText, ha, hb]
  amount := by simp [recordAmount, ha, hb]
  whole n := iff_of_false (toWhole_of_isMissing ha n) (toWhole_of_isMissing hb n)

theorem readAlike_widened {n : Int} (h : n.natAbs < 2 ^ 53) :
    ReadAlike (.number (.whole n)) (Frame.widened (.number (.whole n))) := by
  obtain ⟨x, hx, hfinite, hwhole, htruncate⟩ := Decimal.ofWhole?_exact h
  have hnan := Decimal.not_isNaN_of_isFinite hfinite
  have hwidened : Frame.widened (.number (.whole n)) = .number (.real x) := by
    simp [Frame.widened, Number.toFloat, hx, real]
  have hgiven : isMissing (.number (.whole n)) = false := rfl
  have hgiven' : isMissing (.number (.real x)) = false := hnan
  rw [hwidened]
  refine ⟨?_, ?_, fun m => ?_⟩
  · simp [recordText, hgiven, hgiven', Number.whole?, hwhole, display, quoted, Number.text]
  · simp [recordAmount, hgiven, hgiven', toReal, Number.toFloat, hx]
  · simp [toWhole, Number.truncate?, htruncate]

end Value

def recordNames : List String := ["amount", "year", "period"] ++ Field.all.map Field.name

section
open Text Number

def isWordy (s : String) : Bool := s.toList.any fun c => c = 'c' || c = 'm' || c = 'o' || c = 'y'

theorem not_inText {c : Char} (h : c = 'c' ∨ c = 'm' ∨ c = 'o' ∨ c = 'y') : ¬ InText c := by
  rcases h with rfl | rfl | rfl | rfl <;> unfold InText Decimal.InNumeral <;> decide

theorem inText_toLower {c : Char} (h : InText c) : InText c.toLower := by
  rcases h with (hd | rfl | rfl | rfl | rfl) | rfl | rfl | rfl | rfl
  · rw [toLower_of_isDigit hd]
    exact .inl (.inl hd)
  all_goals simp [InText, Decimal.InNumeral]

theorem isWordy_of_number (n : Number) :
    isWordy (Text.lower (Text.trim (Key.display (.number n)))) = false := by
  refine List.any_eq_false.2 fun c hc hw => ?_
  simp only [Bool.or_eq_true, decide_eq_true_eq, or_assoc] at hw
  simp only [Text.lower, String.toList_map, List.mem_map, Text.trim, String.toList_ofList] at hc
  obtain ⟨d, hd, rfl⟩ := hc
  have hd' : d ∈ n.text.toList := by
    have hsub := (List.dropWhile_sublist Text.isBlank).subset (List.mem_reverse.1 hd)
    exact (List.dropWhile_sublist Text.isBlank).subset (List.mem_reverse.1 hsub)
  exact not_inText hw (inText_toLower (inText_of_mem hd'))

theorem exists_text_of_recordName {k : Key} {name : String} (hn : name ∈ recordNames)
    (h : recordName k = name) : ∃ s, k = .text s := by
  have hnames : ∀ name ∈ recordNames, isWordy name = true := by decide
  have haliases : ∀ a ∈ recordAliases, isWordy a.1 = true := by decide
  cases k with
  | text s => exact ⟨s, rfl⟩
  | number n =>
    have hnumber := Bool.eq_false_iff.1 (isWordy_of_number n)
    unfold recordName at h
    cases ha : recordAliases.find? fun a => a.1 == Text.lower (Text.trim (Key.display (.number n)))
      with
    | none =>
      simp only [ha, Option.map_none, Option.getD_none] at h
      exact absurd (h ▸ hnames name hn) hnumber
    | some a =>
      have hfound : a.1 = Text.lower (Text.trim (Key.display (.number n))) := by
        simpa using List.find?_some ha
      exact absurd (hfound ▸ haliases a (List.mem_of_find?_eq_some ha)) hnumber
  | boolean b =>
    have hnone : recordName (.boolean b) ∉ recordNames := by cases b <;> decide +kernel
    exact absurd (h ▸ hn) hnone
  | null =>
    have hnone : recordName .null ∉ recordNames := by decide +kernel
    exact absurd (h ▸ hn) hnone

end

namespace Movement

def recordValue (record : Entries) (name : String) : Value :=
  (recordValue? record name).getD .null

theorem recordWhole_eq_ok {record : Entries} {name : String} {n : Int} :
    recordWhole record name = .ok n ↔ (recordValue record name).toWhole = .ok n := by
  unfold recordWhole recordValue
  cases recordValue? record name with
  | none => exact iff_of_false nofun nofun
  | some v => rfl

/-- A record is accepted exactly if its amount, its year and its period can be read. -/
theorem ofRecord_eq_ok_iff {record : Entries} {m : Movement} : ofRecord record = .ok m ↔
    (recordValue record "amount").recordAmount = .ok m.amount ∧
    (recordValue record "year").toWhole = .ok m.year ∧
    (recordValue record "period").toWhole = .ok m.period ∧
    ∀ f : Field, (recordValue record f.name).recordText = m.get f := by
  rw [← recordWhole_eq_ok, ← recordWhole_eq_ok]
  constructor
  · intro h
    obtain ⟨amount, ha, h⟩ := bind_eq_ok.1 h
    obtain ⟨year, hy, h⟩ := bind_eq_ok.1 h
    obtain ⟨period, hp, h⟩ := bind_eq_ok.1 h
    cases h
    refine ⟨ha, hy, hp, fun f => ?_⟩
    rw [get_ofFields]
    rfl
  · rintro ⟨ha, hy, hp, hf⟩
    have hget : m.get = fun f : Field => (recordValue record f.name).recordText :=
      funext fun f => (hf f).symm
    rw [← ofFields_get m, hget]
    exact bind_eq_ok.2 ⟨_, ha, bind_eq_ok.2 ⟨_, hy, bind_eq_ok.2 ⟨_, hp, rfl⟩⟩⟩

theorem ofRecord_congr {r r' : Entries} {m : Movement}
    (h : ∀ name ∈ recordNames, (recordValue r name).ReadAlike (recordValue r' name)) :
    ofRecord r = .ok m ↔ ofRecord r' = .ok m := by
  have hamount := h "amount" (by simp [recordNames])
  have hyear := h "year" (by simp [recordNames])
  have hperiod := h "period" (by simp [recordNames])
  have hfield : ∀ f : Field,
      (recordValue r f.name).recordText = (recordValue r' f.name).recordText :=
    fun f => (h f.name (by simp [recordNames, Field.mem_all])).text
  simp only [ofRecord_eq_ok_iff, hamount.amount, hyear.whole, hperiod.whole, hfield]

end Movement
end LedgerReport
