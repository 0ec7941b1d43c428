import LedgerReport.Proofs.Period.Run
import LedgerReport.Proofs.Numeral
/-!
Which texts name selections.

A text names a selection if it is blank, a word, the name of a quarter or of a period, or a number,
and then it is read as that selection (`Names.ofText_eq_ok`). Any other text is refused. Digits that
are not decimal digits, such as superscripts, and more digits than are read are taken for a number,
but they give none, so that reading them fails in another way.
-/

set_option autoImplicit false

namespace LedgerReport

namespace Text

theorem toUpper_cases (c : Char) :
    (97 ≤ c.toNat ∧ c.toNat ≤ 122) ∧ c.toUpper.toNat = c.toNat - 32 ∨
      ¬ (97 ≤ c.toNat ∧ c.toNat ≤ 122) ∧ c.toUpper = c := by
  by_cases h : 97 ≤ c.toNat ∧ c.toNat ≤ 122
  · have hrange : 'a'.val ≤ c.val ∧ c.val ≤ 'z'.val := h
    -- code points are words of 32 bits, and 32 is taken off by adding 2^32 - 32
    have hupper : c.toUpper.toNat = (c.toNat + 4294967264) % 4294967296 :=
      (congrArg Char.toNat (dif_pos hrange)).trans (UInt32.toNat_add c.val _)
    omega
  · exact .inr ⟨h, dif_neg h⟩

theorem toUpper_eq_iff {c u l : Char} (hu : 65 ≤ u.toNat ∧ u.toNat ≤ 90)
    (hl : l.toNat = u.toNat + 32) : c.toUpper = u ↔ c = u ∨ c = l := by
  rw [← Char.toNat_inj, ← Char.toNat_inj, ← Char.toNat_inj]
  rcases toUpper_cases c with ⟨hc, h⟩ | ⟨hc, h⟩
  · omega
  · rw [h]
    omega

theorem digitValue?_eq_none {c : Char} (hl : 58 ≤ c.toNat) (hu : c.toNat < 1632) :
    digitValue? c = none := by
  have hgap : ∀ z ∈ zeroPoints, z + 10 ≤ 58 ∨ 1632 ≤ z := by decide
  rw [digitValue?, Option.map_eq_none_iff, List.find?_eq_none]
  intro z hz
  have := hgap z hz
  simp only [Bool.and_eq_true, decide_eq_true_eq]
  omega

theorem digitValue?_toUpper (c : Char) : digitValue? c.toUpper = digitValue? c := by
  rcases toUpper_cases c with ⟨hc, h⟩ | ⟨hc, h⟩
  · rw [digitValue?_eq_none (by omega) (by omega), digitValue?_eq_none (by omega) (by omega)]
  · rw [h]

theorem digitsValue?_toUpper (cs : List Char) :
    digitsValue? (cs.map Char.toUpper) = digitsValue? cs := by
  simp only [digitsValue?, List.foldlM_map, digitValue?_toUpper]

theorem toList_upper (s : String) : (upper s).toList = s.toList.map Char.toUpper :=
  String.toList_map

theorem toUpper_of_isDigitSign {c : Char} (h : isDigitSign c = true) : c.toUpper = c := by
  have hother : ∀ r ∈ otherDigitRanges, 122 < r.1 := by decide
  rcases toUpper_cases c with ⟨hc, -⟩ | ⟨-, hu⟩
  · rcases Bool.or_eq_true_iff.1 h with hd | ho
    · rw [isDecimalDigit, digitValue?_eq_none (by omega) (by omega)] at hd
      cases hd
    · obtain ⟨r, hr, hfrom, -⟩ := (inRanges_iff _ _).1 ho
      have := hother r hr
      omega
  · exact hu

theorem isBlank_of_isDigitSign {c : Char} (h : isDigitSign c = true) : isBlank c = false := by
  have hdisjoint : ∀ z ∈ otherDigitRanges, ∀ r ∈ blankRanges, z.2 < r.1 ∨ r.2 < z.1 := by decide
  rcases Bool.or_eq_true_iff.1 h with hd | ho
  · exact isBlank_of_isDecimalDigit hd
  · obtain ⟨z, hz, hzl, hzu⟩ := (inRanges_iff _ _).1 ho
    rw [Bool.eq_false_iff]
    intro hb
    obtain ⟨r, hr, hfrom, hto⟩ := (inRanges_iff blankRanges c.toNat).1 hb
    have := hdisjoint z hz r hr
    omega

end Text

namespace Numeral
open Text

/-- Whether characters are digits in the wide sense that are not read as a number: some are no
decimal digits, or they are too many. -/
def Unread (cs : List Char) : Prop :=
  (∀ c ∈ cs, isDigitSign c = true) ∧ (¬ AreDigits cs ∨ digitLimit < cs.length)

theorem AreDigits.isDigitSign {cs : List Char} (h : AreDigits cs) :
    ∀ c ∈ cs, isDigitSign c = true := by
  intro c hc
  rw [Text.isDigitSign, h c hc, Bool.true_or]

theorem signedDigits?_of_not_areDigits {cs : List Char} (hsigns : ∀ c ∈ cs, isDigitSign c = true)
    (h : ¬ AreDigits cs) : signedDigits? cs = none := by
  have hsign : splitSign cs = (false, cs) := by
    cases cs with
    | nil => rfl
    | cons c r =>
      have hc := hsigns c List.mem_cons_self
      refine splitSign_of_ne ?_ ?_
      all_goals
        rintro rfl
        exact absurd hc (by decide)
  -- the digits stop at the first one that is no decimal digit
  obtain ⟨ds, c, rest, rfl, hds, hc⟩ := exists_first (P := fun c => isDecimalDigit c = true)
    (by simpa [AreDigits] using h)
  have hstop : Stops (c :: rest) := by
    rintro x y hxy
    cases hxy
    refine ⟨Bool.eq_false_iff.2 hc, ?_⟩
    rintro rfl
    exact absurd (hsigns '_' (by simp)) (by decide)
  simp only [signedDigits?, hsign, spanDigits_append hds hstop]
  cases ds <;> rfl

theorem Unread.readWhole?_eq_none {cs : List Char} (h : Unread cs) :
    readWhole? (String.ofList cs) = none := by
  obtain ⟨hsigns, hunread⟩ := h
  by_cases hd : AreDigits cs
  · have hlong : digitLimit < cs.length := hunread.resolve_left (not_not_intro hd)
    have hne : cs ≠ [] := List.ne_nil_of_length_pos (Nat.zero_lt_of_lt hlong)
    rw [readWhole?_digits hd hne, if_neg (Nat.not_le.2 hlong)]
  · have hunpadded : unpadded cs = cs :=
      unpadded_of_not_blank fun c hc => isBlank_of_isDigitSign (hsigns c hc)
    rw [readWhole?, String.toList_ofList, hunpadded, signedDigits?_of_not_areDigits hsigns hd]
    rfl

end Numeral

namespace Selector
open Text Numeral

def Spells (cs : List Char) (word : String) : Prop := cs.map Char.toUpper = word.toList

instance (cs : List Char) (word : String) : Decidable (Spells cs word) :=
  inferInstanceAs (Decidable (_ = _))

/-- The last period of a window in a year: the latest of the data if that is in the year, else the
last one of the year. -/
def lastPeriod (year : Int) : Option (Int × Int) → Int
  | some (y, p) => if y = year then p else 12
  | none => 12

inductive Names (year : Int) (latest : Option (Int × Int)) (months : Int) :
    List Char → Selector → Prop where
  | blank : Names year latest months [] (.year year)
  | all {cs : List Char} : Spells cs "ALL" → Names year latest months cs (.year year)
  | rolling {cs : List Char} {w : Window} : Spells cs "LTM" →
      1 ≤ lastPeriod year latest ∧ lastPeriod year latest ≤ 12 → 0 < months →
      w.periods = YearPeriod.run months.toNat ⟨year, lastPeriod year latest⟩ →
      w.name = "LTM" → Names year latest months cs (.window w)
  | quarter {c : Char} {n : Nat} : c = 'Q' ∨ c = 'q' → 1 ≤ n ∧ n ≤ 4 →
      Names year latest months [c, n.digitChar] (.toDate year (3 * n))
  | period {c : Char} {ds : List Char} : c = 'P' ∨ c = 'p' → ds.length = 1 ∨ ds.length = 2 →
      AreDigits ds → 1 ≤ digitsValue ds ∧ digitsValue ds ≤ 12 →
      Names year latest months (c :: ds) (.toDate year (digitsValue ds))
  | number {ds : List Char} : ds ≠ [] → AreDigits ds → ds.length ≤ digitLimit →
      1 ≤ digitsValue ds ∧ digitsValue ds ≤ 12 →
      Names year latest months ds (.toDate year (digitsValue ds))

theorem quarter?_eq_some_iff {name : String} {n : Nat} :
    quarter? (upper name) = some n ↔
      ∃ c, (c = 'Q' ∨ c = 'q') ∧ (1 ≤ n ∧ n ≤ 4) ∧ name.toList = [c, n.digitChar] := by
  rw [quarter?, toList_upper]
  constructor
  · intro h
    split at h
    · rename_i d hname
      obtain ⟨c, rest, hcs, hc, hrest⟩ := List.map_eq_cons_iff.1 hname
      obtain ⟨e, rest, rfl, he, hrest⟩ := List.map_eq_cons_iff.1 hrest
      obtain rfl := List.map_eq_nil_iff.1 hrest
      split_ifs at h with hd
      simp only [Bool.and_eq_true, decide_eq_true_eq] at hd
      have hrange : 49 ≤ d.toNat ∧ d.toNat ≤ 52 := hd
      have hn := Option.some.inj h
      refine ⟨c, (toUpper_eq_iff (by decide) (by decide)).1 hc, by omega, ?_⟩
      have hdigit := Nat.toNat_digitChar_of_lt_ten (n := n) (by omega)
      have hed : e = n.digitChar := by
        rw [← Char.toNat_inj]
        rcases toUpper_cases e with ⟨hl, hu⟩ | ⟨hl, hu⟩
        · rw [he] at hu
          omega
        · rw [← hu, he]
          omega
      rw [hcs, hed]
    · cases h
  · rintro ⟨c, hc, ⟨hl, hu⟩, hname⟩
    rw [hname]
    have hn : n = 1 ∨ n = 2 ∨ n = 3 ∨ n = 4 := by omega
    rcases hc with rfl | rfl
    all_goals rcases hn with rfl | rfl | rfl | rfl
    all_goals rfl

theorem period?_eq_some_iff {name : String} {n : Nat} :
    period? (upper name) = some n ↔
      ∃ c ds, (c = 'P' ∨ c = 'p') ∧ (ds.length = 1 ∨ ds.length = 2) ∧ AreDigits ds ∧
        digitsValue ds = n ∧ name.toList = c :: ds := by
  rw [period?, toList_upper]
  constructor
  · intro h
    split at h
    · rename_i ds hname
      obtain ⟨c, es, hcs, hc, rfl⟩ := List.map_eq_cons_iff.1 hname
      split_ifs at h with hlen
      rw [digitsValue?_toUpper, digitsValue?_eq_some_iff] at h
      have hp : c = 'P' ∨ c = 'p' := (toUpper_eq_iff (by decide) (by decide)).1 hc
      exact ⟨c, es, hp, by simpa using hlen, h.1, h.2, hcs⟩
    · cases h
  · rintro ⟨c, ds, hc, hlen, hd, hn, hname⟩
    have hvalue := digitsValue?_eq_some_iff.2 ⟨hd, hn⟩
    have hcapital : c.toUpper = 'P' := (toUpper_eq_iff (by decide) (by decide)).2 hc
    rw [hname, List.map_cons, hcapital]
    simpa [digitsValue?_toUpper, hvalue] using or_iff_not_imp_left.1 hlen

def numbered (given : String) (year : Int) : Except Error Selector :=
  match quarter? (upper (trim given)), period? (upper (trim given)) with
  | some q, _ => upTo year (.whole (q * 3))
  | none, some p => upTo year (.whole p)
  | none, none =>
    if (trim given).toList.all isDigitSign then
      match readWhole? (trim given) with
      | some n => upTo year (.whole n)
      | none => .error (.notWhole (trim given))
    else .error (.invalidSelector (.text given))

theorem ofText_eq (text : Option String) (year : Int) (latest : Option (Int × Int)) (months : Int) :
    ofText text year (latest.map fun l => (l.1, .whole l.2)) months =
      (let cs := (trim (text.getD "")).toList
      if cs = [] ∨ Spells cs "ALL" then .ok (.year year)
      else if Spells cs "LTM" then
        (Window.ending year (.whole (lastPeriod year latest)) months "LTM").map .window
      else numbered (text.getD "") year) := by
  have hspells : ∀ name word, upper name = word ↔ Spells name.toList word := by
    intro name word
    rw [← String.toList_inj, toList_upper]
    rfl
  have hempty : ∀ name : String, name.isEmpty = true ↔ name.toList = [] := by
    intro name
    rw [String.isEmpty_iff, String.toList_eq_nil_iff]
  have hwindow : ∀ x : Except Error Window,
      (do return window (← x) : Except Error Selector) = x.map .window := by
    intro x
    cases x <;> rfl
  unfold ofText
  simp only [Bool.or_eq_true, hempty, decide_eq_true_eq, hspells, hwindow]
  refine ite_congr rfl (fun _ => rfl) fun _ => ite_congr rfl (fun _ => ?_) fun _ => ?_
  · cases latest with
    | none => rfl
    | some l => simp only [Option.map_some, lastPeriod, apply_ite Value.whole, defaultName]
  · unfold numbered
    cases quarter? (upper (trim (text.getD ""))) with
    | some q => rfl
    | none =>
      cases period? (upper (trim (text.getD ""))) with
      | some p => rfl
      | none =>
        refine ite_congr rfl (fun _ => ?_) fun _ => rfl
        cases readWhole? (trim (text.getD "")) <;> rfl

section
variable {year : Int} {given : String} {cs : List Char}

theorem upTo_eq_ok {n : Int} (h : 1 ≤ n ∧ n ≤ 12) :
    upTo year (.whole n) = .ok (.toDate year n) := by
  rw [upTo, Window.checkPeriod_eq_ok _ h]
  rfl

theorem upTo_eq_error {n : Int} (h : ¬ (1 ≤ n ∧ n ≤ 12)) :
    ∃ fault, upTo year (.whole n) = .error (.invalidSelector fault) := by
  rw [upTo, Window.checkPeriod_eq_error _ h]
  exact ⟨_, rfl⟩

theorem numbered_quarter {c : Char} {n : Nat} (hc : c = 'Q' ∨ c = 'q') (hn : 1 ≤ n ∧ n ≤ 4)
    (hname : (trim given).toList = [c, n.digitChar]) :
    numbered given year = .ok (.toDate year (3 * n)) := by
  have hq := quarter?_eq_some_iff.2 ⟨c, hc, hn, hname⟩
  have hu : upTo year (.whole (n * 3)) = _ := upTo_eq_ok (by omega)
  rw [Int.mul_comm 3]
  simp only [numbered, hq, hu]

theorem numbered_period {c : Char} {ds : List Char} (hc : c = 'P' ∨ c = 'p')
    (hlen : ds.length = 1 ∨ ds.length = 2) (hd : AreDigits ds)
    (hname : (trim given).toList = c :: ds) :
    numbered given year = upTo year (.whole (digitsValue ds)) := by
  have hp := period?_eq_some_iff.2 ⟨c, ds, hc, hlen, hd, rfl, hname⟩
  have hq : quarter? (upper (trim given)) = none := by
    refine Option.eq_none_iff_forall_ne_some.2 fun n hn => ?_
    obtain ⟨d, hd, -, hname'⟩ := quarter?_eq_some_iff.1 hn
    obtain rfl : c = d := (List.cons.inj (hname.symm.trans hname')).1
    rcases hc with rfl | rfl <;> rcases hd with hd | hd <;> cases hd
  simp only [numbered, hq, hp]

theorem numbered_digits (h : ∀ c ∈ (trim given).toList, isDigitSign c = true) :
    numbered given year = match readWhole? (trim given) with
      | some n => upTo year (.whole n)
      | none => .error (.notWhole (trim given)) := by
  have hletter : ∀ c ds, (trim given).toList = c :: ds → isDigitSign c = true := by
    intro c ds hname
    exact h c (hname ▸ List.mem_cons_self)
  have hq : quarter? (upper (trim given)) = none := by
    refine Option.eq_none_iff_forall_ne_some.2 fun n hn => ?_
    obtain ⟨c, hc, -, hname⟩ := quarter?_eq_some_iff.1 hn
    rcases hc with rfl | rfl <;> exact absurd (hletter _ _ hname) (by decide)
  have hp : period? (upper (trim given)) = none := by
    refine Option.eq_none_iff_forall_ne_some.2 fun n hn => ?_
    obtain ⟨c, ds, hc, -, -, -, hname⟩ := period?_eq_some_iff.1 hn
    rcases hc with rfl | rfl <;> exact absurd (hletter _ _ hname) (by decide)
  simp only [numbered, hq, hp, if_pos (List.all_eq_true.2 h)]

theorem numbered_number (hd : AreDigits (trim given).toList) (hne : (trim given).toList ≠ [])
    (hl : (trim given).toList.length ≤ digitLimit) :
    numbered given year = upTo year (.whole (digitsValue (trim given).toList)) := by
  have hread := readWhole?_digits hd hne
  rw [String.ofList_toList, if_pos hl] at hread
  rw [numbered_digits hd.isDigitSign, hread]

theorem numbered_unread (h : Unread (trim given).toList) :
    numbered given year = .error (.notWhole (trim given)) := by
  have hread := h.readWhole?_eq_none
  rw [String.ofList_toList] at hread
  rw [numbered_digits h.1, hread]

end

section
variable {text : Option String} {year : Int} {latest : Option (Int × Int)} {months : Int}

theorem ofText_of_head {c : Char} {ds : List Char}
    (hname : (trim (text.getD "")).toList = c :: ds) (ha : c.toUpper ≠ 'A') (hl : c.toUpper ≠ 'L') :
    ofText text year (latest.map fun l => (l.1, .whole l.2)) months =
      numbered (text.getD "") year := by
  rw [ofText_eq, hname]
  dsimp only
  rw [if_neg, if_neg]
  · exact fun h => hl (List.cons.inj h).1
  · rintro (h | h)
    · cases h
    · exact ha (List.cons.inj h).1

theorem ofText_of_isDigitSign (hne : (trim (text.getD "")).toList ≠ [])
    (h : ∀ c ∈ (trim (text.getD "")).toList, isDigitSign c = true) :
    ofText text year (latest.map fun l => (l.1, .whole l.2)) months =
      numbered (text.getD "") year := by
  obtain ⟨c, ds, hname⟩ := List.exists_cons_of_ne_nil hne
  have hc := h c (hname ▸ List.mem_cons_self)
  refine ofText_of_head hname ?_ ?_
  all_goals
    rw [toUpper_of_isDigitSign hc]
    rintro rfl
    exact absurd hc (by decide)

theorem ofText_unread (h : Unread (trim (text.getD "")).toList) :
    ofText text year (latest.map fun l => (l.1, .whole l.2)) months =
      .error (.notWhole (trim (text.getD ""))) := by
  have hne : (trim (text.getD "")).toList ≠ [] := by
    intro hnil
    rw [hnil] at h
    exact h.2.elim (· areDigits_nil) (Nat.not_lt_zero _)
  rw [ofText_of_isDigitSign hne h.1, numbered_unread h]

theorem Names.ofText_eq_ok {s : Selector}
    (h : Names year latest months (trim (text.getD "")).toList s) :
    ofText text year (latest.map fun l => (l.1, .whole l.2)) months = .ok s := by
  generalize hname : (trim (text.getD "")).toList = cs at h
  cases h with
  | blank => rw [ofText_eq, if_pos (.inl hname)]
  | all hs => rw [ofText_eq, if_pos (.inr (hname ▸ hs))]
  | rolling hs hp hm hw hn =>
    rename_i w
    have hall : ¬ (cs = [] ∨ Spells cs "ALL") := by
      rintro (rfl | h)
      · cases hs
      · cases h.symm.trans hs
    obtain ⟨v, hv, hperiods, hlabel⟩ := Window.ending_eq_ok year "LTM" hp hm
    have hvw : v = w := Window.ext (hperiods.trans hw.symm) (hlabel.trans hn.symm)
    rw [ofText_eq, hname, if_neg hall, if_pos hs, hv, hvw]
    rfl
  | @quarter c n hc hn =>
    rw [ofText_of_head hname, numbered_quarter hc hn hname]
    all_goals rcases hc with rfl | rfl <;> decide
  | @period c ds hc hlen hd hv =>
    rw [ofText_of_head hname, numbered_period hc hlen hd hname, upTo_eq_ok (by omega)]
    all_goals rcases hc with rfl | rfl <;> decide
  | number hne hd hl hv =>
    subst hname
    rw [ofText_of_isDigitSign hne hd.isDigitSign, numbered_number hd hne hl,
      upTo_eq_ok (by omega)]

theorem upTo_cases (n : Int) : (1 ≤ n ∧ n ≤ 12) ∧ upTo year (.whole n) = .ok (.toDate year n) ∨
    ∃ fault, upTo year (.whole n) = .error (.invalidSelector fault) := by
  by_cases h : 1 ≤ n ∧ n ≤ 12
  · exact .inl ⟨h, upTo_eq_ok h⟩
  · exact .inr (upTo_eq_error h)

theorem ofText_cases (text : Option String) (year : Int) (latest : Option (Int × Int))
    (months : Int) :
    (∃ s, ofText text year (latest.map fun l => (l.1, .whole l.2)) months = .ok s ∧
      Names year latest months (trim (text.getD "")).toList s) ∨
    Unread (trim (text.getD "")).toList ∨
    ∃ fault, ofText text year (latest.map fun l => (l.1, .whole l.2)) months =
      .error (.invalidSelector fault) := by
  rw [ofText_eq]
  dsimp only
  generalize text.getD "" = given
  generalize hname : (trim given).toList = cs
  by_cases hall : cs = [] ∨ Spells cs "ALL"
  · rw [if_pos hall]
    refine .inl ⟨_, rfl, ?_⟩
    rcases hall with rfl | hall
    · exact .blank
    · exact .all hall
  rw [if_neg hall]
  by_cases hltm : Spells cs "LTM"
  · rw [if_pos hltm]
    by_cases hin : (1 ≤ lastPeriod year latest ∧ lastPeriod year latest ≤ 12) ∧ 0 < months
    · obtain ⟨w, hw, hperiods, hlabel⟩ := Window.ending_eq_ok year "LTM" hin.1 hin.2
      rw [hw]
      exact .inl ⟨_, rfl, .rolling hltm hin.1 hin.2 hperiods hlabel⟩
    · obtain ⟨fault, hw⟩ := Window.ending_eq_error year "LTM" hin
      rw [hw]
      exact .inr (.inr ⟨fault, rfl⟩)
  rw [if_neg hltm]
  cases hq : quarter? (upper (trim given)) with
  | some n =>
    obtain ⟨c, hc, hn, rfl⟩ := hname ▸ quarter?_eq_some_iff.1 hq
    exact .inl ⟨_, numbered_quarter hc hn hname, .quarter hc hn⟩
  | none =>
    cases hp : period? (upper (trim given)) with
    | some n =>
      obtain ⟨c, ds, hc, hlen, hd, -, rfl⟩ := hname ▸ period?_eq_some_iff.1 hp
      rw [numbered_period hc hlen hd hname]
      rcases upTo_cases (digitsValue ds) with ⟨hin, hok⟩ | herror
      · exact .inl ⟨_, hok, .period hc hlen hd (by omega)⟩
      · exact .inr (.inr herror)
    | none =>
      by_cases hsigns : ∀ c ∈ cs, isDigitSign c = true
      · by_cases hd : AreDigits cs ∧ cs.length ≤ digitLimit
        · obtain ⟨hd, hl⟩ := hd
          have hne : cs ≠ [] := fun hnil => hall (.inl hnil)
          subst hname
          rw [numbered_number hd hne hl]
          rcases upTo_cases (digitsValue (trim given).toList) with ⟨hin, hok⟩ | herror
          · exact .inl ⟨_, hok, .number hne hd hl (by omega)⟩
          · exact .inr (.inr herror)
        · exact .inr (.inl ⟨hsigns, (not_and_or.1 hd).imp_right Nat.not_le.1⟩)
      · have hsome : ¬ cs.all isDigitSign = true := fun h => hsigns (List.all_eq_true.1 h)
        refine .inr (.inr ⟨.text given, ?_⟩)
        simp only [numbered, hq, hp, hname, if_neg hsome]

/-- A text selects exactly what it names. A text that names nothing is refused as a selection,
unless it consists of digits that are not all decimal digits or are too many: these fail to be a
whole number. -/
theorem ofText_exact (text : Option String) (year : Int) (latest : Option (Int × Int))
    (months : Int) :
    (∀ s, ofText text year (latest.map fun l => (l.1, .whole l.2)) months = .ok s ↔
      Names year latest months (trim (text.getD "")).toList s) ∧
    ((∃ fault, ofText text year (latest.map fun l => (l.1, .whole l.2)) months =
        .error (.invalidSelector fault)) ↔
      (∀ s, ¬ Names year latest months (trim (text.getD "")).toList s) ∧
        ¬ Unread (trim (text.getD "")).toList) ∧
    (ofText text year (latest.map fun l => (l.1, .whole l.2)) months =
        .error (.notWhole (trim (text.getD ""))) ↔
      Unread (trim (text.getD "")).toList) := by
  refine ⟨fun s => ⟨fun hok => ?_, Names.ofText_eq_ok⟩, ⟨?_, ?_⟩, ⟨fun herror => ?_, ofText_unread⟩⟩
  · rcases ofText_cases text year latest months with ⟨t, ht, hn⟩ | hl | ⟨fault, hf⟩
    · cases hok.symm.trans ht
      exact hn
    · cases hok.symm.trans (ofText_unread hl)
    · cases hok.symm.trans hf
  · rintro ⟨fault, hf⟩
    refine ⟨fun s hn => ?_, fun hl => ?_⟩
    · cases hf.symm.trans hn.ofText_eq_ok
    · cases hf.symm.trans (ofText_unread hl)
  · rintro ⟨hn, hl⟩
    rcases ofText_cases text year latest months with ⟨s, -, hs⟩ | hl' | hf
    · exact absurd hs (hn s)
    · exact absurd hl' hl
    · exact hf
  · rcases ofText_cases text year latest months with ⟨s, hs, -⟩ | hl | ⟨fault, hf⟩
    · cases herror.symm.trans hs
    · exact hl
    · cases herror.symm.trans hf

theorem ofText_superscript_eq_notWhole :
    ofText (some "²") 2024 none 12 = .error (.notWhole "²") := by
  have hname : trim ((some "²").getD "") = "²" := by decide
  have hchars : "²".toList = ['²'] := rfl
  have hsign : isDigitSign '²' = true := by decide
  have hdigit : isDecimalDigit '²' = false := by decide
  have hunread : Unread (trim ((some "²").getD "")).toList := by
    rw [hname, hchars]
    refine ⟨List.forall_mem_singleton.2 hsign, .inl fun h => ?_⟩
    rw [h '²' List.mem_cons_self] at hdigit
    cases hdigit
  have h := @ofText_unread (some "²") 2024 none 12 hunread
  rwa [hname] at h

end

end Selector
end LedgerReport
