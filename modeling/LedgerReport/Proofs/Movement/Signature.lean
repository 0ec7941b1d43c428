import LedgerReport.Movement.Dataset
import LedgerReport.Proofs.Decimal.Distinct
import LedgerReport.Proofs.Filter.Meaning
import LedgerReport.Proofs.Text.Quoted
/-!
The text from which fingerprints are made determines the movements.

The values of a movement follow one another with nothing but a comma and a blank between them, and
movements with nothing at all. A value without quotes ends in front of the first comma or bracket,
and a quoted one at its closing quote, so the values are read off the text one after the other,
whatever texts they hold.
-/

set_option autoImplicit false

namespace LedgerReport

namespace Value
open Text

def IsPlain : Value → Prop
  | null | number _ | text _ => True
  | _ => False

def chars (v : Value) : List Char := v.quoted.toList

def isBare (c : Char) : Bool := c ≠ ',' && c ≠ ')' && c ≠ '\'' && c ≠ '"'

theorem isBare_of_inText {c : Char} (h : Number.InText c) : isBare c = true := by
  rcases h with (hd | rfl | rfl | rfl | rfl) | rfl | rfl | rfl | rfl
  · have hne : ∀ d : Char, d.isDigit = false → c ≠ d := by
      rintro d hnd rfl
      rw [hd] at hnd
      cases hnd
    simp [isBare, hne ',' rfl, hne ')' rfl, hne '\'' rfl, hne '"' rfl]
  all_goals rfl

theorem isBare_number (n : Number) : ∀ c ∈ (number n).chars, isBare c = true :=
  fun _ hc => isBare_of_inText (Number.inText_of_mem hc)

theorem chars_null : null.chars = ['N', 'o', 'n', 'e'] := rfl

theorem isBare_null : ∀ c ∈ null.chars, isBare c = true := by simp [chars_null, isBare]

theorem number_chars_ne_null (n : Number) : (number n).chars ≠ null.chars := by
  intro h
  have hmem : 'o' ∈ (number n).chars := by simp [h, chars_null]
  have ho : Number.InText 'o' := Number.inText_of_mem hmem
  unfold Number.InText Decimal.InNumeral at ho
  exact absurd ho (by decide)

theorem text_append_ne {s : String} {cs rest rest' : List Char} (hcs : ∀ c ∈ cs, isBare c = true)
    (hne : cs ≠ []) : (text s).chars ++ rest ≠ cs ++ rest' := by
  obtain ⟨c, r, rfl⟩ := List.exists_cons_of_ne_nil hne
  intro h
  have hchars : (text s).chars = Quoted.encode s.toList := toList_quoted s
  rw [hchars, Quoted.encode_append] at h
  have hbare := hcs c List.mem_cons_self
  rw [← (List.cons.inj h).1] at hbare
  rcases Quoted.isQuote_quoteOf s.toList with hq | hq <;> rw [hq] at hbare <;> cases hbare

theorem chars_append_inj {v w : Value} (hv : v.IsPlain) (hw : w.IsPlain) {c : Char}
    {rest rest' : List Char} (hc : isBare c = false)
    (h : v.chars ++ c :: rest = w.chars ++ c :: rest') : v = w ∧ rest = rest' := by
  have hcut : ∀ {xs ys : List Char}, (∀ x ∈ xs, isBare x = true) → (∀ y ∈ ys, isBare y = true) →
      xs ++ c :: rest = ys ++ c :: rest' → xs = ys ∧ rest = rest' := by
    intro xs ys hx hy hxy
    obtain ⟨heq, hrest⟩ := append_cons_inj hx hy hc hc hxy
    exact ⟨heq, (List.cons.inj hrest).2⟩
  cases v with
  | null =>
    cases w with
    | null => exact (hcut isBare_null isBare_null h).imp_left fun _ => rfl
    | number n =>
      exact absurd (hcut isBare_null (isBare_number n) h).1.symm (number_chars_ne_null n)
    | text t => exact absurd h.symm (text_append_ne isBare_null (by simp [chars_null]))
    | _ => cases hw
  | number m =>
    cases w with
    | null => exact absurd (hcut (isBare_number m) isBare_null h).1 (number_chars_ne_null m)
    | number n =>
      obtain ⟨heq, hrest⟩ := hcut (isBare_number m) (isBare_number n) h
      exact ⟨congrArg number (Number.text_injective (String.toList_inj.1 heq)), hrest⟩
    | text t => exact absurd h.symm (text_append_ne (isBare_number m) m.text_ne_nil)
    | _ => cases hw
  | text s =>
    cases w with
    | null => exact absurd h (text_append_ne isBare_null (by simp [chars_null]))
    | number n => exact absurd h (text_append_ne (isBare_number n) n.text_ne_nil)
    | text t =>
      have hs : (text s).chars = Quoted.encode s.toList := toList_quoted s
      have ht : (text t).chars = Quoted.encode t.toList := toList_quoted t
      rw [hs, ht] at h
      obtain ⟨heq, hrest⟩ := Quoted.encode_append_inj h
      exact ⟨congrArg text (String.toList_inj.1 heq), (List.cons.inj hrest).2⟩
    | _ => cases hw
  | _ => cases hv

theorem intercalate_append_inj {vs ws : List Value} (hv : ∀ v ∈ vs, v.IsPlain)
    (hw : ∀ w ∈ ws, w.IsPlain) (hl : vs.length = ws.length) (hne : vs ≠ []) {rest rest' : List Char}
    (h : [',', ' '].intercalate (vs.map chars) ++ ')' :: rest =
      [',', ' '].intercalate (ws.map chars) ++ ')' :: rest') : vs = ws ∧ rest = rest' := by
  induction vs generalizing ws with
  | nil => exact absurd rfl hne
  | cons v vs ih =>
    cases ws with
    | nil => cases hl
    | cons w ws =>
      have hpv := hv v (by simp)
      have hpw := hw w (by simp)
      cases vs with
      | nil =>
        obtain rfl : ws = [] := List.eq_nil_of_length_eq_zero (Nat.succ.inj hl).symm
        simp only [List.map_cons, List.map_nil, List.intercalate_singleton] at h
        obtain ⟨rfl, hrest⟩ := chars_append_inj hpv hpw (by decide) h
        exact ⟨rfl, hrest⟩
      | cons v' vs =>
        cases ws with
        | nil => cases hl
        | cons w' ws =>
          simp only [List.map_cons, List.intercalate_cons_cons, List.append_assoc,
            List.cons_append, List.nil_append] at h
          obtain ⟨rfl, hbehind⟩ := chars_append_inj hpv hpw (by decide) h
          obtain ⟨htail, hrest⟩ := ih (fun u hu => hv u (by simp [hu]))
            (fun u hu => hw u (by simp [hu])) (Nat.succ.inj hl) (by simp)
            (List.cons.inj hbehind).2
          exact ⟨by rw [htail], hrest⟩

theorem ofAmount_injective {a b : Amount} (h : ofAmount a = ofAmount b) : a = b := by
  cases a <;> cases b <;> simp_all [ofAmount]

end Value

namespace Movement
open Value
variable {m n : Movement}

theorem isPlain_of_mem_values (h : m.HasTexts) : ∀ v ∈ m.values, v.IsPlain := by
  intro v hv
  simp only [values, List.mem_cons, List.mem_map] at hv
  rcases hv with rfl | rfl | rfl | ⟨f, -, rfl⟩
  · cases m.amount <;> trivial
  · trivial
  · trivial
  · rcases h f with hf | ⟨s, hf⟩ <;> rw [hf] <;> trivial

theorem values_injective (h : m.values = n.values) : m = n := by
  simp only [values, List.cons.injEq, Value.whole, Value.number.injEq, Number.whole.injEq] at h
  obtain ⟨ha, hy, hp, hf⟩ := h
  have hget : m.get = n.get := funext fun f => List.map_inj_left.1 hf f f.mem_all
  rw [← ofFields_get m, ← ofFields_get n, ofAmount_injective ha, hy, hp, hget]

theorem toList_signature (m : Movement) :
    m.signature.toList = '(' :: ([',', ' '].intercalate (m.values.map chars) ++ [')']) := by
  have hchars : Value.chars = String.toList ∘ Value.quoted := rfl
  simp [signature, hchars]

theorem signature_append_inj (hm : m.HasTexts) (hn : n.HasTexts) {rest rest' : List Char}
    (h : m.signature.toList ++ rest = n.signature.toList ++ rest') : m = n ∧ rest = rest' := by
  rw [toList_signature, toList_signature, List.cons_append, List.cons_append, List.append_assoc,
    List.append_assoc] at h
  obtain ⟨hvalues, hrest⟩ := intercalate_append_inj (isPlain_of_mem_values hm)
    (isPlain_of_mem_values hn) rfl (by simp [values]) (List.cons.inj h).2
  exact ⟨values_injective hvalues, hrest⟩

theorem flatMap_signature_inj {ms ns : List Movement} (hm : ∀ m ∈ ms, m.HasTexts)
    (hn : ∀ n ∈ ns, n.HasTexts) (h : ms.flatMap (fun m => m.signature.toList) =
      ns.flatMap (fun n => n.signature.toList)) : ms = ns := by
  induction ms generalizing ns with
  | nil =>
    cases ns with
    | nil => rfl
    | cons n ns => simp [toList_signature] at h
  | cons m ms ih =>
    cases ns with
    | nil => simp [toList_signature] at h
    | cons n ns =>
      rw [List.flatMap_cons, List.flatMap_cons] at h
      obtain ⟨rfl, hrest⟩ := signature_append_inj (hm m (by simp)) (hn n (by simp)) h
      rw [ih (fun u hu => hm u (by simp [hu])) (fun u hu => hn u (by simp [hu])) hrest]

end Movement

namespace Dataset

def hashed (d : Dataset) : String := String.join (d.movements.map Movement.signature)

theorem fingerprint_eq (d : Dataset) :
    d.fingerprint = ((Digest.hex d.hashed).take 16).toString := rfl

theorem movements_eq_of_hashed {d e : Dataset} (hd : ∀ m ∈ d.movements, m.HasTexts)
    (he : ∀ m ∈ e.movements, m.HasTexts) (h : d.hashed = e.hashed) :
    d.movements = e.movements := by
  have hchars := congrArg String.toList h
  simp only [hashed, String.toList_join, List.flatMap_map] at hchars
  exact Movement.flatMap_signature_inj hd he hchars

/-- The text that is hashed for a dataset determines its movements. So datasets with different
movements have the same fingerprint only if different texts have digests that begin alike. -/
theorem hashed_determines_movements (d e : Dataset) (hd : ∀ m ∈ d.movements, m.HasTexts)
    (he : ∀ m ∈ e.movements, m.HasTexts) :
    (d.hashed = e.hashed ↔ d.movements = e.movements) ∧
      (d.fingerprint = e.fingerprint → d.movements = e.movements ∨
        d.hashed ≠ e.hashed ∧ ((Digest.hex d.hashed).take 16).toString =
          ((Digest.hex e.hashed).take 16).toString) := by
  have hiff : d.hashed = e.hashed ↔ d.movements = e.movements := by
    constructor
    · exact movements_eq_of_hashed hd he
    · intro h
      rw [hashed, hashed, h]
  refine ⟨hiff, fun hf => ?_⟩
  rw [fingerprint_eq, fingerprint_eq] at hf
  by_cases hm : d.movements = e.movements
  · exact .inl hm
  · exact .inr ⟨fun h => hm (hiff.1 h), hf⟩

def coded (code : String) : Movement := .ofFields (some (.real 1.0)) 2024 1 fun
  | .accountCode => .text code
  | _ => .null

theorem coded_hasTexts (code : String) : (coded code).HasTexts := by
  intro f
  rw [coded, Movement.get_ofFields]
  cases f <;> simp

/-- One movement, the code of which holds the end of a movement and the beginning of another. -/
def disguised : Dataset := ⟨[coded "7', ')(1.0, 2024, 1, \"8"], "ledger"⟩

def apart : Dataset := ⟨[coded "7", coded "8"], "ledger"⟩

theorem hashed_determines_movements_disguised :
    (∀ m ∈ disguised.movements, m.HasTexts) ∧ (∀ m ∈ apart.movements, m.HasTexts) ∧
      disguised.hashed ≠ apart.hashed := by
  have hd : ∀ m ∈ disguised.movements, m.HasTexts :=
    List.forall_mem_singleton.2 (coded_hasTexts _)
  have he : ∀ m ∈ apart.movements, m.HasTexts :=
    List.forall_mem_cons.2 ⟨coded_hasTexts _, List.forall_mem_singleton.2 (coded_hasTexts _)⟩
  refine ⟨hd, he, fun h => ?_⟩
  have hsame := (hashed_determines_movements disguised apart hd he).1.1 h
  exact absurd (congrArg List.length hsame) (by decide)

end Dataset
end LedgerReport
