import Mathlib
import LedgerReport.Proofs.Expression.Reading
import LedgerReport.Proofs.Expression.Position
/-!
Where reading an expression stops.

Reading goes from left to right and takes no token that cannot be right. So where it stops, what
was read can be completed to an expression (`Completable`), and a token at which it stops is
refused whatever follows it (`Halted`). The tokens in front of the place that is reported are
therefore the longest ones with which an expression can begin.
-/

set_option autoImplicit false

namespace LedgerReport
open Grammar

/-- Whether tokens become a part of an expression by some text behind them, wherever that text
stands. -/
def Grammar.Stratum.Completable (part : Stratum) (ts : List Token) : Prop :=
  ∃ tail : List Char, ∀ position, ∃ more node,
    Token.scan position (' ' :: tail) = .ok more ∧ (∀ t ∈ more, t.overlong? = none) ∧
      Derives part (ts ++ more) node

namespace Grammar.Stratum

theorem completable_of_derives {part : Stratum} {ts : List Token} {node : Node}
    (h : Derives part ts node) : part.Completable ts := by
  refine ⟨[], fun position => ⟨[], node, ?_, nofun, by rwa [List.append_nil]⟩⟩
  rw [Token.scan_blank (by decide), Token.scan.eq_def]
  rfl

theorem Completable.map {part part' : Stratum} {ts ts' : List Token} (h : part.Completable ts)
    (hmap : ∀ more node, Derives part (ts ++ more) node →
      ∃ node', Derives part' (ts' ++ more) node') : part'.Completable ts' := by
  obtain ⟨tail, h⟩ := h
  refine ⟨tail, fun position => ?_⟩
  obtain ⟨more, node, hs, hshort, hd⟩ := h position
  obtain ⟨node', hd'⟩ := hmap more node hd
  exact ⟨more, node', hs, hshort, hd'⟩

theorem completable_nil : operand.Completable [] := by
  refine ⟨['0'], fun position => ?_⟩
  have hl : Token.lexeme? ['0'] = some (some .number, ['0'], []) := by decide
  have hs : Token.scan position (' ' :: ['0']) = .ok [⟨.number, ['0'], position + 1⟩] := by
    rw [Token.scan_blank (by decide), Token.scan_of_lexeme? hl, Token.scan.eq_def]
    rfl
  obtain ⟨x, hx⟩ := (Token.isLegible_of_admits (Token.admits_of_mem_scan hs _
    List.mem_cons_self)).number rfl
  exact ⟨_, _, hs, List.forall_mem_singleton.2 (Token.overlong?_of_kind nofun),
    .ofPrimary (.number rfl hx)⟩

theorem Completable.ofOperand {ts : List Token} (h : operand.Completable ts) :
    product.Completable ts := h.map fun _ node hd => ⟨node, .ofOperand hd⟩

theorem Completable.ofProduct {ts : List Token} (h : product.Completable ts) :
    sum.Completable ts := h.map fun _ node hd => ⟨node, .ofProduct hd⟩

theorem Completable.signed {t : Token} {ts : List Token} {sign : Sign}
    (ht : t.IsOperator sign.text) (h : operand.Completable ts) : operand.Completable (t :: ts) :=
  h.map fun _ node hd => ⟨.signed sign node, .signed ht hd⟩

theorem Completable.multiplied {t : Token} {ts us : List Token} {op : Operator} {left : Node}
    (hl : Derives .product ts left) (ho : stratumOf op = .product) (ht : t.IsOperator op.text)
    (h : operand.Completable us) : product.Completable (ts ++ t :: us) :=
  h.map fun more node hd => ⟨.binary op left node, by
    rw [List.append_assoc]
    exact .multiplied hl ho ht hd⟩

theorem Completable.added {t : Token} {ts us : List Token} {op : Operator} {left : Node}
    (hl : Derives .sum ts left) (ho : stratumOf op = .sum) (ht : t.IsOperator op.text)
    (h : product.Completable us) : sum.Completable (ts ++ t :: us) :=
  h.map fun more node hd => ⟨.binary op left node, by
    rw [List.append_assoc]
    exact .added hl ho ht hd⟩

theorem Completable.enclosed {t : Token} {ts : List Token} (ht : t.kind = .opening)
    (h : sum.Completable ts) : operand.Completable (t :: ts) := by
  obtain ⟨tail, h⟩ := h
  refine ⟨tail ++ [' ', ')'], fun position => ?_⟩
  obtain ⟨more, node, hs, hshort, hd⟩ := h position
  have hl : Token.lexeme? [')'] = some (some .closing, [')'], []) := by decide
  obtain ⟨u, hu, hclose⟩ : ∃ u : Token, u.kind = .closing ∧
      Token.scan (position + (' ' :: tail).length) [' ', ')'] = .ok [u] := by
    refine ⟨⟨.closing, [')'], position + (' ' :: tail).length + 1⟩, rfl, ?_⟩
    rw [Token.scan_blank (by decide), Token.scan_of_lexeme? hl, Token.scan.eq_def]
    rfl
  have hu' : u.overlong? = none := Token.overlong?_of_kind (by rw [hu]; decide)
  refine ⟨more ++ [u], node, ?_,
    List.forall_mem_append.2 ⟨hshort, List.forall_mem_singleton.2 hu'⟩, .ofPrimary ?_⟩
  · rw [← List.cons_append, Token.scan_append hs, hclose]
    rfl
  · rw [List.cons_append, ← List.append_assoc]
    exact .enclosed ht hu hd

end Grammar.Stratum

namespace Node

theorem endsProduct_of_readProductFrom {ts rest : List Token} {left node : Node}
    (h : plain (readProductFrom left ts) = .ok (node, rest)) : EndsProduct rest := by
  match ts, h with
  | [], h =>
    rw [plain_readProductFrom_of_endsProduct endsSum_nil.1] at h
    cases h
    exact endsSum_nil.1
  | t :: r, h =>
    cases ho : Operator.ofProductToken? t with
    | some op =>
      rw [plain_readProductFrom_cons ho] at h
      obtain ⟨⟨right, after⟩, hright, h⟩ := bind_eq_ok.1 h
      have hshorter := (plain_eq_ok.1 hright).1
      exact endsProduct_of_readProductFrom h
    | none =>
      have hends : EndsProduct (t :: r) := endsProduct_of_none ho r
      rw [plain_readProductFrom_of_endsProduct hends] at h
      cases h
      exact hends
termination_by ts.length
decreasing_by exact Nat.lt_succ_of_lt hshorter

theorem endsProduct_of_readProduct {ts rest : List Token} {node : Node}
    (h : plain (readProduct ts) = .ok (node, rest)) : EndsProduct rest := by
  rw [plain_readProduct] at h
  obtain ⟨_, -, h⟩ := bind_eq_ok.1 h
  exact endsProduct_of_readProductFrom h

theorem endsSum_of_readSumFrom {ts rest : List Token} {left node : Node} (he : EndsProduct ts)
    (h : plain (readSumFrom left ts) = .ok (node, rest)) : EndsSum rest := by
  match ts, he, h with
  | [], he, h =>
    rw [plain_readSumFrom_of_endsSum endsSum_nil] at h
    cases h
    exact endsSum_nil
  | t :: r, he, h =>
    cases ho : Operator.ofSumToken? t with
    | some op =>
      rw [plain_readSumFrom_cons ho] at h
      obtain ⟨⟨right, after⟩, hright, h⟩ := bind_eq_ok.1 h
      have hshorter := (plain_eq_ok.1 hright).1
      exact endsSum_of_readSumFrom (endsProduct_of_readProduct hright) h
    | none =>
      have hends : EndsSum (t :: r) := endsSum_of_none he ho
      rw [plain_readSumFrom_of_endsSum hends] at h
      cases h
      exact hends
termination_by ts.length
decreasing_by exact Nat.lt_succ_of_lt hshorter

theorem endsSum_of_readSum {ts rest : List Token} {node : Node}
    (h : plain (readSum ts) = .ok (node, rest)) : EndsSum rest := by
  rw [plain_readSum] at h
  obtain ⟨_, hleft, h⟩ := bind_eq_ok.1 h
  exact endsSum_of_readSumFrom (endsProduct_of_readProduct hleft) h

/-- What the reader takes of tokens as a part of an expression, and what it leaves. -/
structure Takes (part : Stratum) (ts used rest : List Token) (node : Node) : Prop where
  split : ts = used ++ rest
  derives : Derives part used node
  short : ∀ t ∈ used, t.overlong? = none
  legible : ∀ t ∈ used, t.IsLegible
  legible_rest : ∀ t ∈ rest, t.IsLegible

section Takes
variable {ts rest : List Token} {node : Node}

theorem takes_of_past {part : Stratum} {used : List Token} {x : Reading} {p : Node × List Token}
    (hts : ∀ t ∈ used ++ rest, t.IsLegible) (hd : Derives part used node)
    (h : past used x = .ok p) : Takes part (used ++ rest) used rest node := by
  obtain ⟨hused, hrest⟩ := List.forall_mem_append.1 hts
  exact ⟨rfl, hd, (past_of_eq_ok h).1, hused, hrest⟩

theorem takes_of_readOperand (hts : ∀ t ∈ ts, t.IsLegible)
    (h : plain (readOperand ts) = .ok (node, rest)) : ∃ used, Takes .operand ts used rest node := by
  obtain ⟨hb, hr⟩ := plain_eq_ok.1 h
  obtain ⟨used, hsplit, hd⟩ := derives_of_readOperand hts hr
  obtain rfl : ts = used ++ rest := hsplit
  rw [hd.isRead (List.forall_mem_append.1 hts).1 rest] at h
  exact ⟨used, takes_of_past hts hd h⟩

theorem takes_of_readProduct (hts : ∀ t ∈ ts, t.IsLegible)
    (h : plain (readProduct ts) = .ok (node, rest)) : ∃ used, Takes .product ts used rest node := by
  obtain ⟨hb, hr⟩ := plain_eq_ok.1 h
  obtain ⟨used, hsplit, hd⟩ := derives_of_readProduct hts hr
  obtain rfl : ts = used ++ rest := hsplit
  rw [hd.isRead (List.forall_mem_append.1 hts).1 rest] at h
  exact ⟨used, takes_of_past hts hd h⟩

theorem takes_of_readSum (hts : ∀ t ∈ ts, t.IsLegible)
    (h : plain (readSum ts) = .ok (node, rest)) : ∃ used, Takes .sum ts used rest node := by
  have he := endsSum_of_readSum h
  obtain ⟨hb, hr⟩ := plain_eq_ok.1 h
  obtain ⟨used, hsplit, hd⟩ := derives_of_readSum hts hr
  obtain rfl : ts = used ++ rest := hsplit
  rw [hd.isRead (List.forall_mem_append.1 hts).1 rest he.1] at h
  exact ⟨used, takes_of_past hts hd h⟩

end Takes

/-- What was read of a product in front of its end is read in front of whatever starts alike. -/
theorem Takes.readProduct_eq {ts used rest : List Token} {node : Node}
    (h : Takes .product ts used rest node) {rest' : List Token} (he : EndsProduct rest') :
    plain (readProduct (used ++ rest')) = .ok (node, rest') := by
  rw [h.derives.isRead h.legible rest', past_of_forall h.short,
    plain_readProductFrom_of_endsProduct he]

theorem Takes.readSum_eq {ts used rest : List Token} {node : Node}
    (h : Takes .sum ts used rest node) {rest' : List Token} (he : EndsSum rest') :
    plain (readSum (used ++ rest')) = .ok (node, rest') := by
  rw [h.derives.isRead h.legible rest' he.1, past_of_forall h.short,
    plain_readSumFrom_of_endsSum he]

theorem EndsProduct.of_head? {rest rest' : List Token} (h : EndsProduct rest)
    (he : rest'.head? = rest.head?) : EndsProduct rest' := by
  rwa [EndsProduct, he]

theorem EndsSum.of_head? {rest rest' : List Token} (h : EndsSum rest)
    (he : rest'.head? = rest.head?) : EndsSum rest' := by
  rw [EndsSum, he]
  exact ⟨h.1.of_head? he, h.2⟩

/-- Whether reading stops for a reason that lies in the first of the tokens to come, or in their
end. A row is refused for the number of its digits only where it could stand. -/
def Stop.IsAt (part : Stratum) (before post : List Token) : Stop → Prop
  | .fault position _ => position = post.head?.map (·.position)
  | .overlong digits =>
    ∃ t ∈ post.head?, t.overlong? = some digits ∧ part.Completable (before ++ [t])

/-- Whether reading stops behind tokens that can be completed, at the end of all tokens or at one at
which it stops whatever follows it. -/
def Halted (part : Stratum) (before ts : List Token) (stop : Stop)
    (Stops : List Token → Prop) : Prop :=
  ∃ pre post, ts = pre ++ post ∧ (∀ t ∈ pre, t.overlong? = none) ∧
    part.Completable (before ++ pre) ∧ stop.IsAt part (before ++ pre) post ∧
    ∀ t ∈ post.head?, ∀ more, Stops (pre ++ t :: more)

section Halted
variable {part part' : Stratum} {before before' ts : List Token} {stop : Stop}
  {Stops Stops' : List Token → Prop}

theorem Halted.behind (h : Halted part before ts stop Stops) (used : List Token)
    (hused : ∀ t ∈ used, t.overlong? = none)
    (hc : ∀ pre, part.Completable (before ++ pre) → part'.Completable (before' ++ (used ++ pre)))
    (hs : ∀ xs, xs.head? = ts.head? → Stops xs → Stops' (used ++ xs)) :
    Halted part' before' (used ++ ts) stop Stops' := by
  obtain ⟨pre, post, rfl, hpre, hcomp, hat, hstops⟩ := h
  refine ⟨used ++ pre, post, (List.append_assoc ..).symm,
    List.forall_mem_append.2 ⟨hused, hpre⟩, hc pre hcomp, ?_, ?_⟩
  · cases stop with
    | fault position fault => exact hat
    | overlong digits =>
      obtain ⟨t, ht, hover, hcut⟩ := hat
      refine ⟨t, ht, hover, ?_⟩
      rw [List.append_assoc] at hcut
      simpa only [List.append_assoc] using hc (pre ++ [t]) hcut
  · intro t ht more
    rw [List.append_assoc]
    refine hs _ ?_ (hstops t ht more)
    cases post with
    | nil => cases ht
    | cons u post =>
      cases ht
      cases pre <;> rfl

theorem halted_at {t : Token} {r : List Token} {fault : ExpressionFault}
    (hc : part.Completable before) (hs : ∀ more, Stops (t :: more)) :
    Halted part before (t :: r) (.fault (some t.position) fault) Stops := by
  refine ⟨[], t :: r, rfl, nofun, by rwa [List.append_nil], rfl, ?_⟩
  rintro u hu more
  cases hu
  exact hs more

theorem halted_overlong {t : Token} {r : List Token} {digits : String}
    (ht : t.overlong? = some digits) (hc : part.Completable before)
    (hcut : part.Completable (before ++ [t])) (hs : ∀ more, Stops (t :: more)) :
    Halted part before (t :: r) (.overlong digits) Stops := by
  refine ⟨[], t :: r, rfl, nofun, by rwa [List.append_nil],
    ⟨t, rfl, ht, by rwa [List.append_nil]⟩, ?_⟩
  rintro u hu more
  cases hu
  exact hs more

theorem halted_end {fault : ExpressionFault} (hts : ∀ t ∈ ts, t.overlong? = none)
    (hc : part.Completable (before ++ ts)) :
    Halted part before ts (.fault none fault) Stops :=
  ⟨ts, [], (List.append_nil ts).symm, hts, hc, rfl, nofun⟩

end Halted

mutual

theorem halted_of_readOperand {ts : List Token} (hts : ∀ t ∈ ts, t.IsLegible) {stop : Stop}
    (h : plain (readOperand ts) = .error stop) :
    Halted .operand [] ts stop (fun xs => plain (readOperand xs) = .error stop) := by
  cases ts with
  | nil =>
    rw [readOperand] at h
    cases h
    exact halted_end nofun Stratum.completable_nil
  | cons t r =>
    obtain ⟨ht, hr⟩ := List.forall_mem_cons.1 hts
    cases hsign : Sign.ofToken? t with
    | some sign =>
      have hs := Sign.ofToken?_eq_some_iff.1 hsign
      have hshort : t.overlong? = none := Token.overlong?_of_kind (by rw [hs.1]; decide)
      rw [plain_readOperand_signed hsign] at h
      rcases bind_eq_error.1 h with ho | ⟨_, -, h⟩
      · refine (halted_of_readOperand hr ho).behind [t] (List.forall_mem_singleton.2 hshort)
          (fun _ hc => hc.signed hs) fun xs _ hx => ?_
        rw [List.singleton_append, plain_readOperand_signed hsign, hx]
        rfl
      · cases h
    | none =>
    cases hleaf : ofToken? t with
    | some leaf =>
      rw [plain_readOperand_leaf hsign hleaf] at h
      cases leaf with
      | ok node => cases h
      | error stop' =>
        cases h
        obtain ⟨digits, node, rfl, hover, hd⟩ := derives_of_ofToken?_error ht hleaf
        refine halted_overlong hover Stratum.completable_nil
          (Stratum.completable_of_derives (.ofPrimary hd)) fun more => ?_
        rw [plain_readOperand_leaf hsign hleaf]
        rfl
    | none =>
    by_cases hopen : t.kind = .opening
    · have hshort : t.overlong? = none := Token.overlong?_of_kind (by rw [hopen]; decide)
      rw [plain_readOperand_opening hopen] at h
      rcases bind_eq_error.1 h with hi | ⟨⟨inner, after⟩, hi, h⟩
      · refine (halted_of_readSum hr hi).behind [t] (List.forall_mem_singleton.2 hshort)
          (fun _ hc => hc.enclosed hopen) fun xs _ hx => ?_
        rw [List.singleton_append, plain_readOperand_opening hopen, hx]
        rfl
      obtain ⟨used, hu⟩ := takes_of_readSum hr hi
      have he := endsSum_of_readSum hi
      have hused : ∀ v ∈ t :: used, v.overlong? = none := List.forall_mem_cons.2 ⟨hshort, hu.short⟩
      have hcomp := (Stratum.completable_of_derives hu.derives).enclosed hopen
      rw [hu.split, ← List.cons_append]
      cases after with
      | nil =>
        cases h
        rw [List.append_nil]
        exact halted_end hused hcomp
      | cons u rest =>
        by_cases hclose : u.kind = .closing
        · cases h.symm.trans (if_pos hclose)
        · cases h.symm.trans (if_neg hclose)
          have hhere : Halted .operand (t :: used) (u :: rest) (.fault (some u.position) .unclosed)
              (fun xs => plain (readOperand (t :: used ++ xs)) =
                .error (.fault (some u.position) .unclosed)) := by
            refine halted_at hcomp fun more => ?_
            have hsame : (u :: more).head? = (u :: rest).head? := rfl
            rw [List.cons_append, plain_readOperand_opening hopen,
              hu.readSum_eq (he.of_head? hsame)]
            exact if_neg hclose
          exact hhere.behind (t :: used) hused (fun _ hc => hc) fun _ _ hx => hx
    · have hstop : ∀ more, plain (readOperand (t :: more)) =
          .error (.fault (some t.position) (.token t.text)) := by
        intro more
        rw [readOperand]
        simp only [hsign, hleaf, if_neg hopen]
        rfl
      cases (hstop r).symm.trans h
      exact halted_at Stratum.completable_nil hstop
termination_by (ts.length, 0)

theorem halted_of_readProductFrom {ts : List Token} (hts : ∀ t ∈ ts, t.IsLegible) {left : Node}
    {stop : Stop} (h : plain (readProductFrom left ts) = .error stop) {before : List Token}
    (hl : Derives .product before left) :
    Halted .product before ts stop (fun xs => plain (readProductFrom left xs) = .error stop) := by
  match ts, hts, h with
  | [], hts, h =>
    rw [plain_readProductFrom_of_endsProduct endsSum_nil.1] at h
    cases h
  | t :: r, hts, h =>
    have hr := (List.forall_mem_cons.1 hts).2
    cases ho : Operator.ofProductToken? t with
    | none =>
      rw [plain_readProductFrom_of_endsProduct (endsProduct_of_none ho r)] at h
      cases h
    | some op =>
      obtain ⟨hs, ht⟩ := Operator.ofProductToken?_eq_some_iff.1 ho
      have hshort : t.overlong? = none := Token.overlong?_of_kind (by rw [ht.1]; decide)
      rw [plain_readProductFrom_cons ho] at h
      rcases bind_eq_error.1 h with hright | ⟨⟨right, after⟩, hright, hnode⟩
      · refine (halted_of_readOperand hr hright).behind [t] (List.forall_mem_singleton.2 hshort)
          (fun _ hc => hc.multiplied hl hs ht) fun xs _ hx => ?_
        rw [List.singleton_append, plain_readProductFrom_cons ho, hx]
        rfl
      · have hshorter := (plain_eq_ok.1 hright).1
        obtain ⟨used, hu⟩ := takes_of_readOperand hr hright
        rw [hu.split, ← List.cons_append]
        refine (halted_of_readProductFrom hu.legible_rest hnode
          (.multiplied hl hs ht hu.derives)).behind (t :: used)
          (List.forall_mem_cons.2 ⟨hshort, hu.short⟩) (fun _ hc => by simpa using hc)
          fun xs _ hx => ?_
        rw [List.cons_append, plain_readProductFrom_cons ho, hu.derives.isRead hu.legible xs,
          past_of_forall hu.short]
        exact hx
termination_by (ts.length, 1)
decreasing_by
  · exact Prod.Lex.left _ _ (Nat.lt_succ_self _)
  · exact Prod.Lex.left _ _ (Nat.lt_succ_of_lt hshorter)

theorem halted_of_readProduct {ts : List Token} (hts : ∀ t ∈ ts, t.IsLegible) {stop : Stop}
    (h : plain (readProduct ts) = .error stop) :
    Halted .product [] ts stop (fun xs => plain (readProduct xs) = .error stop) := by
  rw [plain_readProduct] at h
  rcases bind_eq_error.1 h with hleft | ⟨⟨left, after⟩, hleft, hnode⟩
  · refine (halted_of_readOperand hts hleft).behind [] nofun (fun _ hc => hc.ofOperand)
      fun xs _ hx => ?_
    rw [List.nil_append, plain_readProduct, hx]
    rfl
  · have hshorter := (plain_eq_ok.1 hleft).1
    obtain ⟨used, hu⟩ := takes_of_readOperand hts hleft
    rw [hu.split]
    refine (halted_of_readProductFrom hu.legible_rest hnode (.ofOperand hu.derives)).behind used
      hu.short (fun _ hc => hc) fun xs _ hx => ?_
    rw [plain_readProduct, hu.derives.isRead hu.legible xs, past_of_forall hu.short]
    exact hx
termination_by (ts.length, 2)
decreasing_by
  · exact Prod.Lex.right _ (by omega)
  · exact Prod.Lex.left _ _ hshorter

theorem halted_of_readSumFrom {ts : List Token} (hts : ∀ t ∈ ts, t.IsLegible) {left : Node}
    {stop : Stop} (he : EndsProduct ts) (h : plain (readSumFrom left ts) = .error stop)
    {before : List Token} (hl : Derives .sum before left) :
    Halted .sum before ts stop (fun xs => plain (readSumFrom left xs) = .error stop) := by
  match ts, hts, he, h with
  | [], hts, he, h =>
    rw [plain_readSumFrom_of_endsSum endsSum_nil] at h
    cases h
  | t :: r, hts, he, h =>
    have hr := (List.forall_mem_cons.1 hts).2
    cases ho : Operator.ofSumToken? t with
    | none =>
      rw [plain_readSumFrom_of_endsSum (endsSum_of_none he ho)] at h
      cases h
    | some op =>
      obtain ⟨hs, ht⟩ := Operator.ofSumToken?_eq_some_iff.1 ho
      have hshort : t.overlong? = none := Token.overlong?_of_kind (by rw [ht.1]; decide)
      rw [plain_readSumFrom_cons ho] at h
      rcases bind_eq_error.1 h with hright | ⟨⟨right, after⟩, hright, hnode⟩
      · refine (halted_of_readProduct hr hright).behind [t] (List.forall_mem_singleton.2 hshort)
          (fun _ hc => hc.added hl hs ht) fun xs _ hx => ?_
        rw [List.singleton_append, plain_readSumFrom_cons ho, hx]
        rfl
      · have hshorter := (plain_eq_ok.1 hright).1
        have hends := endsProduct_of_readProduct hright
        obtain ⟨used, hu⟩ := takes_of_readProduct hr hright
        rw [hu.split, ← List.cons_append]
        refine (halted_of_readSumFrom hu.legible_rest hends hnode
          (.added hl hs ht hu.derives)).behind (t :: used)
          (List.forall_mem_cons.2 ⟨hshort, hu.short⟩) (fun _ hc => by simpa using hc)
          fun xs hsame hx => ?_
        rw [List.cons_append, plain_readSumFrom_cons ho, hu.readProduct_eq (hends.of_head? hsame)]
        exact hx
termination_by (ts.length, 3)
decreasing_by
  · exact Prod.Lex.left _ _ (Nat.lt_succ_self _)
  · exact Prod.Lex.left _ _ (Nat.lt_succ_of_lt hshorter)

theorem halted_of_readSum {ts : List Token} (hts : ∀ t ∈ ts, t.IsLegible) {stop : Stop}
    (h : plain (readSum ts) = .error stop) :
    Halted .sum [] ts stop (fun xs => plain (readSum xs) = .error stop) := by
  rw [plain_readSum] at h
  rcases bind_eq_error.1 h with hleft | ⟨⟨left, after⟩, hleft, hnode⟩
  · refine (halted_of_readProduct hts hleft).behind [] nofun (fun _ hc => hc.ofProduct)
      fun xs _ hx => ?_
    rw [List.nil_append, plain_readSum, hx]
    rfl
  · have hshorter := (plain_eq_ok.1 hleft).1
    have hends := endsProduct_of_readProduct hleft
    obtain ⟨used, hu⟩ := takes_of_readProduct hts hleft
    rw [hu.split]
    refine (halted_of_readSumFrom hu.legible_rest hends hnode (.ofProduct hu.derives)).behind used
      hu.short (fun _ hc => hc) fun xs hsame hx => ?_
    rw [plain_readSum, hu.readProduct_eq (hends.of_head? hsame)]
    exact hx
termination_by (ts.length, 4)
decreasing_by
  · exact Prod.Lex.right _ (by omega)
  · exact Prod.Lex.left _ _ hshorter

end

theorem halted_of_ofTokens {ts : List Token} (hts : ∀ t ∈ ts, t.IsLegible) {stop : Stop}
    (h : ofTokens ts = .error stop) : Halted .sum [] ts stop (ofTokens · = .error stop) := by
  by_cases hn : ts = []
  · subst hn
    cases h
    exact halted_end nofun Stratum.completable_nil.ofOperand.ofProduct
  rw [ofTokens_eq hn] at h
  rcases bind_eq_error.1 h with hsum | ⟨⟨node, rest⟩, hsum, h⟩
  · refine (halted_of_readSum hts hsum).behind [] nofun (fun _ hc => hc) fun xs hsame hx => ?_
    have hxs : xs ≠ [] := by
      rintro rfl
      exact hn (List.head?_eq_none_iff.1 hsame.symm)
    rw [List.nil_append, ofTokens_eq hxs, hx]
    rfl
  · have he := endsSum_of_readSum hsum
    obtain ⟨used, hu⟩ := takes_of_readSum hts hsum
    rw [hu.split]
    cases rest with
    | nil => cases h
    | cons t post =>
      -- a token behind the sum is refused as such, whatever comes behind it
      obtain ⟨fault, hfault⟩ : ∃ fault, ∀ more,
          ended (node, t :: more) = .error (.fault (some t.position) fault) := by
        by_cases hk : t.kind = .closing
        · exact ⟨_, fun _ => if_pos hk⟩
        · exact ⟨_, fun _ => if_neg hk⟩
      cases h.symm.trans (hfault post)
      have hhere : Halted .sum used (t :: post) (.fault (some t.position) fault)
          (fun xs => ofTokens (used ++ xs) = .error (.fault (some t.position) fault)) := by
        refine halted_at (Stratum.completable_of_derives hu.derives) fun more => ?_
        have hsame : (t :: more).head? = (t :: post).head? := rfl
        rw [ofTokens_eq (by simp), hu.readSum_eq (he.of_head? hsame)]
        exact hfault more
      exact hhere.behind used hu.short (fun _ hc => hc) fun _ _ hx => hx

/-- Whether tokens of an expression can follow tokens so that together they are one. -/
def Begins (ts : List Token) : Prop :=
  ∃ more node, (∀ t ∈ more, t.kind.Admits t.chars) ∧ Derives .sum (ts ++ more) node

theorem begins_of_completable {ts : List Token} (h : Stratum.sum.Completable ts) : Begins ts := by
  obtain ⟨tail, h⟩ := h
  obtain ⟨more, node, hs, -, hd⟩ := h 0
  exact ⟨more, node, Token.admits_of_mem_scan hs, hd⟩

/-- The text in front of the rest of its tokens can be completed if the tokens there can. -/
theorem exists_read_of_completable {expression : String} {pre post : List Token}
    (ht : Token.read expression = .ok (pre ++ post)) (hpre : ∀ t ∈ pre, t.overlong? = none)
    (h : Stratum.sum.Completable pre) :
    ∃ tail node, read (String.ofList (expression.toList.take
      (Token.start expression.length post) ++ tail)) = .ok node := by
  obtain ⟨tail, h⟩ := h
  obtain ⟨n, -, hstart, hcut⟩ := Token.scan_cut (Token.read_eq_ok_iff.1 ht) tail
  obtain ⟨more, node, hs, hmore, hd⟩ := h n
  rw [Nat.zero_add, Nat.zero_add, String.length_toList] at hstart
  rw [Nat.zero_add, hs] at hcut
  refine ⟨' ' :: tail, node, read_eq_ok.2 ⟨_, Token.read_eq_ok_iff.2 ?_, hd,
    List.forall_mem_append.2 ⟨hpre, hmore⟩⟩⟩
  rw [String.toList_ofList, hstart, hcut]
  rfl

theorem legible_append {ts more : List Token} (hts : ∀ t ∈ ts, t.IsLegible)
    (hmore : ∀ t ∈ more, t.kind.Admits t.chars) : ∀ t ∈ ts ++ more, t.IsLegible :=
  List.forall_mem_append.2 ⟨hts, fun t ht => Token.isLegible_of_admits (hmore t ht)⟩

theorem not_begins_of_fault {ts : List Token} (hts : ∀ t ∈ ts, t.IsLegible)
    {position : Option Nat} {fault : ExpressionFault}
    (h : ∀ more, ofTokens (ts ++ more) = .error (.fault position fault)) : ¬ Begins ts := by
  rintro ⟨more, node, hmore, hd⟩
  have hread := ofTokens_of_derives hd (legible_append hts hmore)
  rw [h more] at hread
  unfold past at hread
  split at hread <;> cases hread

/-- Whether a row with too many digits stands where a row can stand, and none in front of it. -/
def Exceeds (ts : List Token) (digits : String) : Prop :=
  ∃ pre t post, ts = pre ++ t :: post ∧ (∀ u ∈ pre, u.overlong? = none) ∧
    t.overlong? = some digits ∧ Begins (pre ++ [t])

theorem takeWhile_short {pre : List Token} {t : Token} {digits : String}
    (hpre : ∀ u ∈ pre, u.overlong? = none) (ht : t.overlong? = some digits) (post : List Token) :
    (pre ++ t :: post).takeWhile (·.overlong?.isNone) = pre := by
  rw [List.takeWhile_append_of_pos fun u hu => by rw [hpre u hu]; rfl,
    List.takeWhile_cons_of_neg (by rw [ht]; simp), List.append_nil]

/-- Reading comes to a row with too many digits exactly if the row could stand there. -/
theorem ofTokens_overlong_iff {ts : List Token} (hts : ∀ t ∈ ts, t.IsLegible) {digits : String} :
    ofTokens ts = .error (.overlong digits) ↔ Exceeds ts digits := by
  constructor
  · intro h
    obtain ⟨pre, post, rfl, hpre, -, ⟨t, ht, hover, hcut⟩, -⟩ := halted_of_ofTokens hts h
    cases post with
    | nil => cases ht
    | cons u post =>
      cases ht
      exact ⟨pre, t, post, rfl, hpre, hover, begins_of_completable hcut⟩
  · rintro ⟨pre, t, post, rfl, hpre, hover, more, node, hmore, hd⟩
    rw [List.append_cons] at hts
    have hlegible := legible_append (List.forall_mem_append.1 hts).1 hmore
    -- in front of what completes the row reading stops at it, and so it does in front of anything
    have hcompleted : ofTokens (pre ++ [t] ++ more) = .error (.overlong digits) := by
      rw [ofTokens_of_derives hd hlegible, List.append_assoc, past_append, past_of_forall hpre,
        List.singleton_append, past, List.findSome?_cons, hover]
    obtain ⟨pre', post', hsplit, hpre', -, ⟨t', ht', hover', -⟩, hstops⟩ :=
      halted_of_ofTokens hlegible hcompleted
    cases post' with
    | nil => cases ht'
    | cons u post' =>
      cases ht'
      rw [List.append_assoc, List.singleton_append] at hsplit
      have hfirst := takeWhile_short hpre hover more
      rw [hsplit, takeWhile_short hpre' hover' post'] at hfirst
      subst hfirst
      obtain ⟨rfl, -⟩ := List.cons.inj (List.append_cancel_left hsplit)
      exact hstops t rfl post

theorem read_eq_notWhole_iff {expression digits : String} :
    read expression = .error (.notWhole digits) ↔
      ∃ tokens, Token.read expression = .ok tokens ∧ Exceeds tokens digits := by
  cases ht : Token.read expression with
  | error e =>
    have hread : read expression = .error e := by
      unfold read
      rw [ht]
      rfl
    have hne : e ≠ .notWhole digits := by
      rintro rfl
      unfold Token.read at ht
      split at ht <;> cases ht
    simp [hread, hne]
  | ok tokens =>
    have hexceeds := @ofTokens_overlong_iff tokens (Token.isLegible_of_read ht) digits
    simp only [Except.ok.injEq, exists_eq_left', ← hexceeds]
    unfold read
    simp only [ht, bind, Except.bind]
    cases ho : ofTokens tokens with
    | ok node => simp [pure, Except.pure]
    | error stop => cases stop <;> simp

/-- An expression is read as a tree exactly if its tokens derive the tree, which is then the only
one they derive, and no row in it has too many digits. Where reading comes to a row that has, it is
refused as a number; any other expression is refused as such. -/
theorem read_exact (expression : String) :
    (∀ node, read expression = .ok node ↔ ∃ tokens, Token.read expression = .ok tokens ∧
      Derives .sum tokens node ∧ ∀ t ∈ tokens, t.overlong? = none) ∧
    (∀ tokens, Token.read expression = .ok tokens →
      ∀ node node', Derives .sum tokens node → Derives .sum tokens node' → node = node') ∧
    (∀ digits, read expression = .error (.notWhole digits) ↔
      ∃ tokens, Token.read expression = .ok tokens ∧ Exceeds tokens digits) ∧
    ((¬ ∃ tokens, Token.read expression = .ok tokens ∧
        ((∃ node, Derives .sum tokens node) ∨ ∃ digits, Exceeds tokens digits)) →
      ∃ position fault, read expression = .error (.expression expression position fault)) := by
  refine ⟨fun node => read_eq_ok, ?_, fun digits => read_eq_notWhole_iff, ?_⟩
  · intro tokens ht node node' hd hd'
    exact hd.unique hd' (Token.admits_of_mem_scan (Token.read_eq_ok_iff.1 ht))
  · intro hn
    cases h : read expression with
    | ok node =>
      obtain ⟨tokens, ht, hd, -⟩ := read_eq_ok.1 h
      exact absurd ⟨tokens, ht, .inl ⟨node, hd⟩⟩ hn
    | error e =>
      obtain ⟨position, fault, rfl⟩ | ⟨digits, rfl⟩ := read_error h
      · exact ⟨position, fault, rfl⟩
      · obtain ⟨tokens, ht, hexceeds⟩ := read_eq_notWhole_iff.1 h
        exact absurd ⟨tokens, ht, .inr ⟨digits, hexceeds⟩⟩ hn

def onesRow (n : Nat) : List Char := '@' :: List.replicate n '1'

theorem admits_onesRow {n : Nat} (hn : 0 < n) : TokenKind.order.Admits (onesRow n) := by
  refine ⟨_, rfl, fun c hc => ?_, by simpa using hn.ne'⟩
  rw [List.eq_of_mem_replicate hc]
  decide

theorem scan_onesRow {n : Nat} (hn : 0 < n) :
    Token.scan 0 (onesRow n) = .ok [⟨.order, onesRow n, 0⟩] := by
  have hl : Token.lexeme? (onesRow n ++ []) = some (some .order, onesRow n, []) :=
    Token.lexeme?_eq_some_iff.2 ⟨admits_onesRow hn, nofun⟩
  rw [List.append_nil] at hl
  rw [Token.scan_of_lexeme? hl, Token.scan.eq_def]
  rfl

theorem overlong?_onesRow {n : Nat} (hn : Numeral.digitLimit < n) (position : Nat) :
    Token.overlong? ⟨.order, onesRow n, position⟩ =
      some (String.ofList (List.replicate n '1')) :=
  if_pos ⟨rfl, by simpa [Token.digits, onesRow] using hn⟩

/-- The tokens of a row with too many digits derive its tree, but the row is not read. -/
theorem read_onesRow_eq_notWhole :
    (∃ tokens node, Token.read (String.ofList (onesRow 4301)) = .ok tokens ∧
      Derives .sum tokens node) ∧
    read (String.ofList (onesRow 4301)) =
      .error (.notWhole (String.ofList (List.replicate 4301 '1'))) := by
  have ht : Token.read (String.ofList (onesRow 4301)) = .ok [⟨.order, onesRow 4301, 0⟩] := by
    rw [Token.read_eq_ok_iff, String.toList_ofList]
    exact scan_onesRow (by decide)
  have hd := derives_order rfl (Token.isLegible_of_read ht _ List.mem_cons_self)
  have hover := overlong?_onesRow (n := 4301) (by decide) 0
  refine ⟨⟨_, _, ht, .ofProduct (.ofOperand (.ofPrimary hd))⟩, read_eq_notWhole_iff.2 ⟨_, ht, ?_⟩⟩
  exact ⟨[], _, [], rfl, nofun, hover, [], _, nofun, .ofProduct (.ofOperand (.ofPrimary hd))⟩

/-- An expression whose tokens are no expression is refused at the first token with which none can
begin, or at its end if one can begin with all its tokens; unless reading comes to a row with too
many digits before, which is refused as a number. -/
theorem read_error_exact {expression : String} {tokens : List Token}
    (ht : Token.read expression = .ok tokens) (hn : ∀ node, read expression ≠ .ok node) :
    (∃ digits, Exceeds tokens digits ∧ read expression = .error (.notWhole digits)) ∨
    (∀ digits, ¬ Exceeds tokens digits) ∧
    ∃ position fault, read expression = .error (.expression expression position fault) ∧
      (∃ tail node, read (String.ofList (expression.toList.take position ++ tail)) = .ok node) ∧
      ((∃ pre t post, tokens = pre ++ t :: post ∧ t.position = position ∧
          Begins pre ∧ ¬ Begins (pre ++ [t])) ∨
        position = expression.length ∧ Begins tokens ∧ ∀ node, ¬ Derives .sum tokens node) := by
  have hts := Token.isLegible_of_read ht
  cases ho : ofTokens tokens with
  | ok node => exact absurd (read_eq_ok.2 ⟨tokens, ht, (ofTokens_eq_ok_iff hts).1 ho⟩) (hn node)
  | error stop =>
    cases stop with
    | overlong digits =>
      have hexceeds := (ofTokens_overlong_iff hts).1 ho
      exact .inl ⟨digits, hexceeds, read_eq_notWhole_iff.2 ⟨tokens, ht, hexceeds⟩⟩
    | fault position? fault =>
    have hexceeds : ∀ digits, ¬ Exceeds tokens digits := by
      intro digits h
      rw [(ofTokens_overlong_iff hts).2 h] at ho
      cases ho
    have hread : read expression =
        .error (.expression expression (position?.getD expression.length) fault) := by
      unfold read
      simp only [ht, ho, bind, Except.bind]
    obtain ⟨pre, post, rfl, hpre, hcomp, hpos, hrefused⟩ := halted_of_ofTokens hts ho
    rw [List.nil_append] at hcomp
    obtain rfl : position? = post.head?.map (·.position) := hpos
    have htext := exists_read_of_completable ht hpre hcomp
    refine .inr ⟨hexceeds, _, fault, hread, ?_, ?_⟩
    · cases post <;> exact htext
    cases post with
    | nil =>
      rw [List.append_nil] at ht ⊢
      exact .inr ⟨rfl, begins_of_completable hcomp,
        fun node hd => hn node (read_eq_ok.2 ⟨pre, ht, hd, hpre⟩)⟩
    | cons t post =>
      refine .inl ⟨pre, t, post, rfl, rfl, begins_of_completable hcomp, ?_⟩
      have hagain : ∀ more,
          ofTokens (pre ++ [t] ++ more) = .error (.fault (some t.position) fault) := by
        intro more
        rw [List.append_assoc, List.singleton_append]
        exact hrefused t rfl more
      rw [List.append_cons] at hts
      exact not_begins_of_fault (List.forall_mem_append.1 hts).1 hagain

theorem read_error_exact_crowded : ∃ tokens, Token.read "x * (a - b c)" = .ok tokens ∧
    (∀ node, read "x * (a - b c)" ≠ .ok node) ∧
    (∃ pre t post, tokens = pre ++ t :: post ∧ t.position = 11 ∧
      Begins pre ∧ ¬ Begins (pre ++ [t])) := by
  have ht : Token.read "x * (a - b c)" = .ok [⟨.name, ['x'], 0⟩, ⟨.operator, ['*'], 2⟩,
      ⟨.opening, ['('], 4⟩, ⟨.name, ['a'], 5⟩, ⟨.operator, ['-'], 7⟩, ⟨.name, ['b'], 9⟩,
      ⟨.name, ['c'], 11⟩, ⟨.closing, [')'], 12⟩] := by
    cbv
  have he : read "x * (a - b c)" = .error (.expression "x * (a - b c)" 11 .unclosed) := by cbv
  have hn : ∀ node, read "x * (a - b c)" ≠ .ok node := by
    intro node h
    rw [he] at h
    cases h
  obtain ⟨digits, -, hread⟩ | ⟨-, position, fault, hread, -, hcases⟩ := read_error_exact ht hn
  · rw [he] at hread
    cases hread
  rw [he] at hread
  cases hread
  refine ⟨_, ht, hn, ?_⟩
  rcases hcases with h | ⟨hp, -⟩
  · exact h
  · exact absurd hp (by decide)

end Node

theorem Grammar.Derives.balanced {part : Stratum} {ts : List Token} {node : Node}
    (h : Derives part ts node) :
    ts.countP (·.kind = .opening) = ts.countP (·.kind = .closing) := by
  induction h with
  | number hk | name hk | order hk => simp [hk]
  | enclosed ht hu _ ih => simp [ht, hu, ih, Nat.add_comm]
  | ofPrimary _ ih | ofOperand _ ih | ofProduct _ ih => exact ih
  | signed ht _ ih => simp [ht.1, ih]
  | multiplied _ _ ht _ ihl ihr | added _ _ ht _ ihl ihr => simp [ht.1, ihl, ihr]

namespace Node

/-- The parenthesis behind a row with too many digits is no longer refused where it stands. -/
theorem read_onesRow_closing_eq_notWhole :
    (∃ tokens, Token.read (String.ofList (onesRow 4301 ++ [' ', ')'])) = .ok tokens ∧
      ∀ node, ¬ Derives .sum tokens node) ∧
    read (String.ofList (onesRow 4301 ++ [' ', ')'])) =
      .error (.notWhole (String.ofList (List.replicate 4301 '1'))) := by
  have hclosing : Token.lexeme? [')'] = some (some .closing, [')'], []) := by decide
  obtain ⟨u, hk, ht⟩ : ∃ u : Token, u.kind = .closing ∧
      Token.read (String.ofList (onesRow 4301 ++ [' ', ')'])) =
        .ok [⟨.order, onesRow 4301, 0⟩, u] := by
    refine ⟨⟨.closing, [')'], 0 + (onesRow 4301).length + 1⟩, rfl, ?_⟩
    rw [Token.read_eq_ok_iff, String.toList_ofList, Token.scan_append (scan_onesRow (by decide)),
      Token.scan_blank (by decide), Token.scan_of_lexeme? hclosing, Token.scan.eq_def]
    rfl
  have hd := derives_order rfl (Token.isLegible_of_read ht _ List.mem_cons_self)
  have hover := overlong?_onesRow (n := 4301) (by decide) 0
  refine ⟨⟨_, ht, fun node h => ?_⟩, read_eq_notWhole_iff.2 ⟨_, ht, ?_⟩⟩
  · have hbalanced := h.balanced
    simp [hk] at hbalanced
  · exact ⟨[], _, [u], rfl, nofun, hover, [], _, nofun, .ofProduct (.ofOperand (.ofPrimary hd))⟩

end Node
end LedgerReport
