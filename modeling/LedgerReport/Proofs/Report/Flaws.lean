import LedgerReport.Report.Read
set_option autoImplicit false

namespace LedgerReport

namespace Decoded
variable {α β : Type}

def Explained (x : Decoded α) : Prop := x ≠ .bad []

theorem explained_ok (a : α) : (ok a).Explained := nofun

theorem explained_flaw (message : String) : (flaw message : Decoded α).Explained := nofun

theorem Explained.map {x : Decoded α} (h : x.Explained) (f : α → β) : (f <$> x).Explained := by
  cases x with
  | ok a => exact explained_ok (f a)
  | bad flaws =>
    rintro he
    cases he
    exact h rfl

theorem Explained.seq {f : Decoded (α → β)} {x : Decoded α} (hf : f.Explained) (hx : x.Explained) :
    (f <*> x).Explained := by
  cases f with
  | ok g =>
    cases x with
    | ok a => exact explained_ok (g a)
    | bad flaws => exact fun he => hx (congrArg bad (bad.inj he))
  | bad flaws =>
    have hn : flaws ≠ [] := fun h => hf (congrArg bad h)
    cases x with
    | ok a => exact fun h => hn (bad.inj h)
    | bad others => exact fun h => hn (List.append_eq_nil_iff.1 (bad.inj h)).1

theorem Explained.under {x : Decoded α} (h : x.Explained) (name : String) :
    (x.under name).Explained := by
  cases x with
  | ok a => exact explained_ok a
  | bad flaws => exact fun he => h (congrArg bad (List.map_eq_nil_iff.1 (bad.inj he)))

theorem explained_all {xs : List (Decoded α)} (h : ∀ x ∈ xs, x.Explained) :
    (all xs).Explained := by
  induction xs with
  | nil => exact explained_ok []
  | cons x xs ih => exact ((h x (by simp)).map _).seq (ih fun y hy => h y (by simp [hy]))

theorem Explained.demand {x : Decoded α} (h : x.Explained) (message : String) (test : α → Bool) :
    (x.demand message test).Explained := by
  cases x with
  | ok a =>
    rw [Decoded.demand]
    split
    · exact explained_ok a
    · exact explained_flaw message
  | bad flaws => exact fun he => h he

section
variable {read : Value → Decoded α} (hread : ∀ v, (read v).Explained)
include hread

theorem explained_required (entries : Entries) (names : List String) :
    (required entries names read).Explained := by
  unfold required
  split
  · exact (hread _).under _
  · exact fun h => List.cons_ne_nil _ _ (bad.inj h)

theorem explained_optional (entries : Entries) (names : List String) (default : α) :
    (optional entries names default read).Explained := by
  unfold optional
  split
  · exact (hread _).under _
  · exact explained_ok default

theorem explained_nullable (v : Value) : (nullable read v).Explained := by
  cases v with
  | null => exact explained_ok none
  | _ => exact (hread _).map some

theorem explained_dictionary (v : Value) : (dictionary read v).Explained := by
  cases v with
  | map entries =>
    refine explained_all fun x hx => ?_
    obtain ⟨e, -, rfl⟩ := List.mem_map.1 hx
    refine Explained.seq (Explained.map ?_ _) ((hread _).under _)
    split
    · exact explained_ok _
    · exact ((explained_flaw _).under _).under _
  | _ => exact explained_flaw _

end

theorem explained_model {read : Entries → Decoded α} (hread : ∀ es, (read es).Explained)
    (name : String) (v : Value) : (model name read v).Explained := by
  cases v with
  | map entries => exact hread entries
  | _ => exact explained_flaw _

theorem explained_text (v : Value) : (text v).Explained := by
  cases v with
  | text s => exact explained_ok s
  | _ => exact explained_flaw _

theorem explained_oneOf (choices : List α) (name : α → String) (v : Value) :
    (oneOf choices name v).Explained := by
  unfold oneOf
  repeat' split
  all_goals first | exact explained_ok _ | exact explained_flaw _

theorem explained_whole (v : Value) : (whole v).Explained := by
  unfold whole
  repeat' split
  all_goals first | exact explained_ok _ | exact explained_flaw _

theorem explained_between (least most : Int) (v : Value) : (between least most v).Explained := by
  have hw := explained_whole v
  unfold between
  split
  · repeat' split
    all_goals first | exact explained_ok _ | exact explained_flaw _
  · rename_i flaws hv
    rw [hv] at hw
    exact fun he => hw (congrArg bad (bad.inj he))

theorem explained_boolean (v : Value) : (boolean v).Explained := by
  unfold boolean
  split
  · exact explained_ok _
  · split
    · dsimp only
      repeat' split
      all_goals first | exact explained_ok _ | exact explained_flaw _
    · exact explained_flaw _
  · split
    · exact explained_ok _
    · exact explained_flaw _
  · exact explained_flaw _

end Decoded

open Decoded

theorem explained_decodeFilter (v : Value) : (decodeFilter v).Explained :=
  (explained_dictionary (fun v => explained_ok v) v).map _

theorem Variable.explained_decode (v : Value) : (decode v).Explained := by
  refine explained_model (fun es => ((Explained.map ?_ _).seq ?_).seq ?_) _ v
  · exact explained_optional explained_decodeFilter es _ _
  · exact explained_optional explained_text es _ _
  · exact explained_optional (explained_nullable explained_text) es _ _

theorem Content.explained_decode (type : RowType) (es : Entries) :
    (decode type es).Explained := by
  cases type with
  | variableRow => exact (explained_required explained_text es _).map _
  | calculated => exact (explained_required explained_text es _).map _
  | category => exact (explained_optional explained_decodeFilter es _ _).map _
  | subtotal =>
    exact ((explained_required explained_whole es _).map _).seq
      (explained_required explained_whole es _)
  | spacer => exact explained_ok _

theorem Item.explained_decodeAs (type : RowType) (es : Entries) :
    (decodeAs type es).Explained := by
  refine (((((Explained.map ?_ _).seq ?_).seq ?_).seq ?_).seq ?_).seq ?_
  · exact explained_required (fun v => (explained_whole v).demand _ _) es _
  · exact explained_optional (explained_nullable explained_text) es _ _
  · exact explained_optional (explained_nullable (explained_oneOf _ _)) es _ _
  · exact explained_optional (explained_nullable (explained_oneOf _ _)) es _ _
  · exact explained_optional (explained_between 0 3) es _ _
  · exact Content.explained_decode type es

theorem Item.explained_decode (v : Value) : (decode v).Explained := by
  unfold decode
  split
  · split
    · exact explained_flaw _
    · split
      · exact (explained_decodeAs _ _).under _
      · exact explained_flaw _
  · exact explained_flaw _

theorem FormatRule.explained_decode (v : Value) : (decode v).Explained := by
  refine explained_model (fun es => ((Explained.map ?_ _).seq ?_).seq ?_) _ v
  · exact explained_optional (explained_between 0 4) es _ _
  · exact explained_optional explained_boolean es _ _
  · exact explained_optional (explained_nullable fun v => (explained_text v).demand _ _) es _ _

theorem FormattingRules.explained_decode (v : Value) : (decode v).Explained := by
  refine explained_model (fun es => (((Explained.map ?_ _).seq ?_).seq ?_).seq ?_) _ v
  all_goals exact explained_optional FormatRule.explained_decode es _ _

namespace Report

end Report
end LedgerReport
