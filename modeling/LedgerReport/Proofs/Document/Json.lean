import LedgerReport.Proofs.Traversal
import LedgerReport.Document.Json
set_option autoImplicit false

namespace LedgerReport

namespace Value

mutual

/-- Whether two values are equal, down to the order of entries and the kinds of numbers. -/
def equal : Value → Value → Bool
  | .null, w => match w with
    | .null => true
    | _ => false
  | .boolean a, w => match w with
    | .boolean b => a == b
    | _ => false
  | .number m, w => match w with
    | .number n => decide (m = n)
    | _ => false
  | .text s, w => match w with
    | .text t => s == t
    | _ => false
  | .list vs, w => match w with
    | .list ws => equalItems vs ws
    | _ => false
  | .map es, w => match w with
    | .map es' => equalEntries es es'
    | _ => false

def equalItems : List Value → List Value → Bool
  | [], ws => ws.isEmpty
  | v :: vs, ws => match ws with
    | w :: ws => equal v w && equalItems vs ws
    | [] => false

def equalEntries : List (Key × Value) → List (Key × Value) → Bool
  | [], es' => es'.isEmpty
  | (k, v) :: es, es' => match es' with
    | e :: es' => decide (k = e.1) && equal v e.2 && equalEntries es es'
    | [] => false

end

mutual

theorem equal_iff : ∀ v w : Value, equal v w = true ↔ v = w
  | .null, w => by cases w <;> simp [equal]
  | .boolean a, w => by cases w <;> simp [equal]
  | .number m, w => by cases w <;> simp [equal]
  | .text s, w => by cases w <;> simp [equal]
  | .list vs, w => by cases w <;> simp [equal, equalItems_iff vs]
  | .map es, w => by cases w <;> simp [equal, equalEntries_iff es]

theorem equalItems_iff : ∀ vs ws : List Value, equalItems vs ws = true ↔ vs = ws
  | [], ws => by cases ws <;> simp [equalItems]
  | v :: vs, ws => by cases ws <;> simp [equalItems, equal_iff v, equalItems_iff vs]

theorem equalEntries_iff : ∀ es es' : List (Key × Value), equalEntries es es' = true ↔ es = es'
  | [], es' => by cases es' <;> simp [equalEntries]
  | (k, v) :: es, es' => by
    cases es' <;> simp [equalEntries, equal_iff v, equalEntries_iff es, Prod.ext_iff]

end

instance : DecidableEq Value := fun v w => decidable_of_iff _ (equal_iff v w)

/-- Whether two values differ in nothing but in which floating-point values they hold. -/
inductive Alike : Value → Value → Prop
  | refl (v : Value) : Alike v v
  | real (x y : Float) : Alike (.real x) (.real y)
  | list {vs ws : List Value} (h : List.Forall₂ Alike vs ws) : Alike (.list vs) (.list ws)
  | map {es es' : Entries} (hk : es'.map (·.1) = es.map (·.1))
      (hv : List.Forall₂ Alike (es.map (·.2)) (es'.map (·.2))) : Alike (.map es) (.map es')

namespace Alike

theorem exists_list {vs : List Value} {w : Value} (h : Alike (.list vs) w) :
    ∃ ws, w = .list ws ∧ List.Forall₂ Alike vs ws := by
  cases h with
  | refl => exact ⟨vs, rfl, List.forall₂_same.2 fun v _ => .refl v⟩
  | list h => exact ⟨_, rfl, h⟩

theorem exists_map {es : Entries} {w : Value} (h : Alike (.map es) w) :
    ∃ es', w = .map es' ∧ es'.map (·.1) = es.map (·.1) ∧
      List.Forall₂ Alike (es.map (·.2)) (es'.map (·.2)) := by
  cases h with
  | refl => exact ⟨es, rfl, rfl, List.forall₂_same.2 fun v _ => .refl v⟩
  | map hk hv => exact ⟨_, rfl, hk, hv⟩

theorem eq_whole {n : Int} {w : Value} (h : Alike (.whole n) w) : w = .whole n := by
  generalize hv : Value.whole n = v at h
  cases h with
  | refl => rfl
  | _ => cases hv

theorem eq_text {s : String} {w : Value} (h : Alike (.text s) w) : w = .text s := by
  generalize hv : Value.text s = v at h
  cases h with
  | refl => rfl
  | _ => cases hv

end Alike
end Value

namespace Json
open Value

def RulesAlike (rule rule' : NumberRule) : Prop :=
  ∀ cs isWhole v, rule cs isWhole = .ok v → ∃ w, rule' cs isWhole = .ok w ∧ Alike v w

variable {rule rule' : NumberRule}

theorem readNumber_alike (h : RulesAlike rule rule') {c c' : Cursor} {v : Value}
    (hr : readNumber rule c = .ok (v, c')) :
    ∃ w, readNumber rule' c = .ok (w, c') ∧ Alike v w := by
  unfold readNumber at hr ⊢
  split at hr
  · cases hr
  · next cs isWhole hs =>
    obtain ⟨v', hv, hr⟩ := except_map_eq_ok.1 hr
    cases hr
    obtain ⟨w, hw, ha⟩ := h cs isWhole v hv
    exact ⟨w, except_map_eq_ok.2 ⟨w, hw, rfl⟩, ha⟩

theorem insert_alike {es es' : Entries} {k : Key} {v w : Value}
    (hk : es'.map (·.1) = es.map (·.1)) (hv : List.Forall₂ Alike (es.map (·.2)) (es'.map (·.2)))
    (h : Alike v w) : (es'.insert k w).map (·.1) = (es.insert k v).map (·.1) ∧
      List.Forall₂ Alike ((es.insert k v).map (·.2)) ((es'.insert k w).map (·.2)) := by
  induction es generalizing es' with
  | nil =>
    obtain rfl : es' = [] := by simpa using hk
    exact ⟨rfl, .cons h .nil⟩
  | cons e es ih =>
    cases es' with
    | nil => cases hk
    | cons e' es' =>
      obtain ⟨k₀, v₀⟩ := e
      obtain ⟨k₁, w₀⟩ := e'
      obtain ⟨hkey, hks⟩ := List.cons.inj hk
      cases hkey
      cases hv with
      | cons hhead htail =>
        simp only [Entries.insert]
        split
        · exact ⟨congrArg (k₀ :: ·) hks, .cons h htail⟩
        · obtain ⟨hkeys, hvalues⟩ := ih hks htail
          exact ⟨congrArg (k₀ :: ·) hkeys, .cons hhead hvalues⟩

theorem readers_alike (h : RulesAlike rule rule') (fuel : Nat) :
    (∀ c v c', readValue rule fuel c = .ok (v, c') →
      ∃ w, readValue rule' fuel c = .ok (w, c') ∧ Alike v w) ∧
    (∀ c vs c', readItems rule fuel c = .ok (vs, c') →
      ∃ ws, readItems rule' fuel c = .ok (ws, c') ∧ List.Forall₂ Alike vs ws) ∧
    (∀ c before before' es c', before'.map (·.1) = before.map (·.1) →
      List.Forall₂ Alike (before.map (·.2)) (before'.map (·.2)) →
      readEntries rule fuel c before = .ok (es, c') →
      ∃ es', readEntries rule' fuel c before' = .ok (es', c') ∧ es'.map (·.1) = es.map (·.1) ∧
        List.Forall₂ Alike (es.map (·.2)) (es'.map (·.2))) := by
  induction fuel with
  | zero =>
    refine ⟨?_, ?_, ?_⟩
    · intro c v c' hr
      simp [readValue, Cursor.fail] at hr
    · intro c vs c' hr
      simp [readItems, Cursor.fail] at hr
    · intro c before before' es c' _ _ hr
      simp [readEntries, Cursor.fail] at hr
  | succ fuel ih =>
    obtain ⟨ihv, ihi, ihe⟩ := ih
    refine ⟨?_, ?_, ?_⟩
    · intro c v c' hr
      unfold readValue at hr ⊢
      split at hr
      · exact ⟨v, hr, .refl v⟩
      · dsimp only at hr ⊢
        split at hr
        · exact ⟨v, hr, .refl v⟩
        · obtain ⟨⟨es, c''⟩, hes, hv⟩ := except_map_eq_ok.1 hr
          cases hv
          obtain ⟨es', hes', hk, hv⟩ := ihe _ [] [] _ _ rfl .nil hes
          exact ⟨.map es', except_map_eq_ok.2 ⟨_, hes', rfl⟩, .map hk hv⟩
      · dsimp only at hr ⊢
        split at hr
        · exact ⟨v, hr, .refl v⟩
        · obtain ⟨⟨vs, c''⟩, hvs, hv⟩ := except_map_eq_ok.1 hr
          cases hv
          obtain ⟨ws, hws, ha⟩ := ihi _ _ _ hvs
          exact ⟨.list ws, except_map_eq_ok.2 ⟨_, hws, rfl⟩, .list ha⟩
      · split at hr
        · exact ⟨v, hr, .refl v⟩
        · exact readNumber_alike h hr
    · intro c vs c' hr
      unfold readItems at hr ⊢
      obtain ⟨⟨v, c₁⟩, hv, hr⟩ := bind_eq_ok.1 hr
      obtain ⟨w, hw, ha⟩ := ihv _ _ _ hv
      rw [hw]
      dsimp only [bind, Except.bind] at hr ⊢
      split at hr
      · cases hr
        exact ⟨[w], rfl, .cons ha .nil⟩
      · obtain ⟨⟨vs', c₂⟩, hvs, hr⟩ := except_map_eq_ok.1 hr
        cases hr
        obtain ⟨ws, hws, has⟩ := ihi _ _ _ hvs
        exact ⟨w :: ws, except_map_eq_ok.2 ⟨_, hws, rfl⟩, .cons ha has⟩
      · cases hr
    · intro c before before' es c' hk hv hr
      unfold readEntries at hr ⊢
      split at hr
      · obtain ⟨⟨name, c₁⟩, hname, hr⟩ := bind_eq_ok.1 hr
        rw [hname]
        dsimp only [bind, Except.bind] at hr ⊢
        split at hr
        · obtain ⟨⟨v, c₂⟩, hv', hr⟩ := bind_eq_ok.1 hr
          obtain ⟨w, hw, ha⟩ := ihv _ _ _ hv'
          obtain ⟨hkeys, hvalues⟩ := insert_alike (k := .text name) hk hv ha
          rw [hw]
          dsimp only at hr ⊢
          split at hr
          · cases hr
            exact ⟨_, rfl, hkeys, hvalues⟩
          · exact ihe _ _ _ _ _ hkeys hvalues hr
          · cases hr
        · cases hr
      · cases hr

/-- A text that is read under one rule is read under another that gives what is alike, as a value
that is alike. -/
theorem readWith_alike (h : RulesAlike rule rule') {text : String} {v : Value}
    (hr : readWith rule text = .ok v) : ∃ w, readWith rule' text = .ok w ∧ Alike v w := by
  unfold readWith at hr ⊢
  dsimp only at hr ⊢
  split at hr
  · cases hr
  · obtain ⟨⟨v', c⟩, hv, hr⟩ := bind_eq_ok.1 hr
    obtain ⟨w, hw, ha⟩ := (readers_alike h _).1 _ _ _ hv
    rw [hw]
    dsimp only [bind, Except.bind] at hr ⊢
    split at hr
    · next hend =>
      cases hr
      exact ⟨w, if_pos hend, ha⟩
    · cases hr

end Json
end LedgerReport
