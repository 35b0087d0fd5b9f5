import EventStream.Proofs.Syntax.Derived

namespace EventStream

namespace Parser

section
variable {α : Type} {cost reach : Nat} {us : List Token} {ts ts' mid rest rest' : Tokens} {x : α}

/-- A run makes the same of some tokens wherever they stand before a token of some reach. Each token in
front is worth sixteen steps of fuel. -/
structure Portable (cost reach : Nat) (run : Nat → Tokens → Except Failure (α × Tokens))
    (us : List Token) (x : α) : Prop where
  reads {fuel ts rest} : Spans us ts rest → 16 * ts.length + cost ≤ fuel →
    reach ≤ (peek rest).reach → run fuel ts = .ok (x, rest)

/-- What a run takes off the front of some tokens, at least one, it takes anywhere. -/
def Takes (cost reach : Nat) (run : Nat → Tokens → Except Failure (α × Tokens)) (ts rest : Tokens)
    (x : α) : Prop :=
  ∃ us, us ≠ [] ∧ Spans us ts rest ∧ Portable cost reach run us x

/-- What a loop goes on with, if at all, it goes on with anywhere. -/
def Extends (reach : Nat) (run : Nat → Tokens → Except Failure (α × Tokens)) (ts rest : Tokens)
    (x : α) : Prop :=
  ∃ us, (us ≠ [] → reach ≤ (peek ts).reach) ∧ Spans us ts rest ∧ Portable 1 (reach + 1) run us x

theorem peek_eq (hne : us ≠ []) (h : Spans us ts rest) (h' : Spans us ts' rest') :
    peek ts' = peek ts := by
  obtain ⟨t, us, rfl⟩ := List.exists_cons_of_ne_nil hne
  rw [h.1, h'.1]

/-- The token before which a loop starts is the same anywhere, or the one that follows. -/
theorem reach_le_peek (hhead : us ≠ [] → reach ≤ (peek ts).reach) (h : Spans us ts rest)
    (h' : Spans us ts' rest') (hr : reach ≤ (peek rest').reach) : reach ≤ (peek ts').reach := by
  by_cases hne : us = []
  · subst hne
    cases h'
    exact hr
  · rw [peek_eq hne h h']
    exact hhead hne

theorem Portable.succ {run : Nat → Tokens → Except Failure (α × Tokens)}
    (h : ∀ {fuel ts rest}, Spans us ts rest → 16 * ts.length + cost ≤ fuel →
      reach ≤ (peek rest).reach → run (fuel + 1) ts = .ok (x, rest)) :
    Portable (cost + 1) reach run us x := by
  refine ⟨fun {fuel ts rest} hs hf hr => ?_⟩
  obtain ⟨fuel, rfl⟩ : ∃ n, fuel = n + 1 := ⟨fuel - 1, by omega⟩
  exact h hs (by omega) hr

/-- A first run and a loop after it. -/
theorem Takes.loop {first run : Nat → Tokens → Except Failure (α × Tokens)}
    (loop : α → Nat → Tokens → Except Failure (α × Tokens)) {z : α}
    (h : Takes cost reach first ts mid x) (h' : Extends reach (loop x) mid rest z)
    (hrun : ∀ fuel ts, run (fuel + 1) ts = first fuel ts >>= fun r => loop r.1 fuel r.2) :
    Takes (cost + 1) (reach + 1) run ts rest z := by
  obtain ⟨us, hne, hus, hfirst⟩ := h
  obtain ⟨vs, hhead, hvs, hloop⟩ := h'
  refine ⟨us ++ vs, by simp [hne], hus.trans hvs, .succ fun {fuel _ _} hs hf hr => ?_⟩
  obtain ⟨mid', hus', hvs'⟩ := spans_append.mp hs
  have hfuel : 16 * mid'.length + 1 ≤ fuel := by
    have := List.length_pos_iff.mpr hne
    have := hus'.length_eq
    omega
  rw [hrun]
  refine bind_eq_ok.mpr ⟨_, hfirst.reads hus' hf ?_, hloop.reads hvs' hfuel hr⟩
  exact reach_le_peek hhead hvs hvs' (by omega)

/-- A function that hands its tokens on to another one. -/
theorem Takes.hand {run other : Nat → Tokens → Except Failure (α × Tokens)} {reach' : Nat}
    (h : Takes cost reach other ts rest x) (hr : reach ≤ reach')
    (hrun : ∀ fuel ts', peek ts' = peek ts → run (fuel + 1) ts' = other fuel ts') :
    Takes (cost + 1) reach' run ts rest x := by
  obtain ⟨us, hne, hus, h⟩ := h
  refine ⟨us, hne, hus, .succ fun hs hf hr' => ?_⟩
  rw [hrun _ _ (peek_eq hne hus hs)]
  exact h.reads hs hf (by omega)

end

theorem level_number_le (level : Level) : level.number ≤ 6 := by
  cases level <;> decide

theorem tokens_of_closed {close : Symbol} {ts rest : Tokens} (h : Closed close ts rest) :
    ∃ vs, Spans vs ts rest ∧ ∀ {ts' rest'}, Spans vs ts' rest' → Closed close ts' rest' :=
  h.elim (fun h => ⟨_, h, .inl⟩) fun h => ⟨_, h, .inr⟩

/-- A primary expression of one token. -/
theorem primary_token {room : Nat} {ts : Tokens} {t : Token} {e : Expr} (ht : t ≠ .ending)
    (hts : peek ts = t)
    (h : ∀ {fuel ts}, peek ts = t → primary (fuel + 1) room ts = .ok (e, ts.drop 1)) :
    Takes 1 1 (primary · room ·) ts (ts.drop 1) e := by
  refine ⟨[t], by simp, spans_of_peek hts ht, .succ fun hs _ _ => ?_⟩
  obtain ⟨hts', _, rfl⟩ := hs
  exact h hts'

/-- What each function takes with an amount of fuel, it takes anywhere. -/
structure Locality (fuel : Nat) : Prop where
  expression {room ts e rest} : expression fuel room ts = .ok (e, rest) →
    Takes 14 8 (expression · room ·) ts rest e
  chain {level room ts e rest} : chain fuel level room ts = .ok (e, rest) →
    Takes (2 * level.number + 1) (level.number + 1) (chain · level room ·) ts rest e
  chainFrom {level left room ts e rest} : chainFrom fuel level left room ts = .ok (e, rest) →
    Extends level.number (chainFrom · level left room ·) ts rest e
  operand {level room ts e rest} : operand fuel level room ts = .ok (e, rest) →
    Takes (2 * level.number) level.number (operand · level room ·) ts rest e
  signed {room ts e rest} : signed fuel room ts = .ok (e, rest) →
    Takes 3 2 (signed · room ·) ts rest e
  selection {room ts e rest} : selection fuel room ts = .ok (e, rest) →
    Takes 2 2 (selection · room ·) ts rest e
  selectionFrom {left room ts e rest} : selectionFrom fuel left room ts = .ok (e, rest) →
    Extends 1 (selectionFrom · left room ·) ts rest e
  primary {room ts e rest} : primary fuel room ts = .ok (e, rest) →
    Takes 1 1 (primary · room ·) ts rest e
  elements {close room ts es rest} : close.closes →
    elements fuel close room ts = .ok (es, rest) →
      Takes 16 0 (elements · close room ·) ts rest es
  elementsFrom {close done room ts es rest} : close.closes →
    elementsFrom fuel close done room ts = .ok (es, rest) →
      Takes 15 0 (elementsFrom · close done room ·) ts rest es
  entries {room ts es rest} : entries fuel room ts = .ok (es, rest) →
    Takes 16 0 (entries · room ·) ts rest es
  entriesFrom {done room ts es rest} : entriesFrom fuel done room ts = .ok (es, rest) →
    Takes 15 0 (entriesFrom · done room ·) ts rest es

section
variable {fuel room : Nat} {level : Level} {close : Symbol} {ts rest : Tokens} {e left : Expr}
  {es done : List Expr} {ps found : List (String × Expr)} (ih : Locality fuel)

include ih

theorem expression_local (h : expression (fuel + 1) room ts = .ok (e, rest)) :
    Takes 14 8 (expression · room ·) ts rest e := by
  cases room with
  | zero => cases h
  | succ room =>
    obtain ⟨⟨c, afterC⟩, hc, h⟩ := bind_eq_ok.mp h
    obtain ⟨us, hne, hus, hfirst⟩ := ih.chain hc
    have hnumber : Level.or.number = 6 := rfl
    dsimp only at h
    split at h
    next hq =>
      obtain ⟨⟨y, afterY⟩, hy, h⟩ := bind_eq_ok.mp h
      obtain ⟨colon, hcolon, h⟩ := bind_eq_ok.mp h
      obtain ⟨⟨n, afterN⟩, hn, h⟩ := bind_eq_ok.mp h
      cases h
      obtain ⟨vs, _, hvs, hyes⟩ := ih.chain hy
      obtain ⟨ws, _, hws, hno⟩ := ih.expression hn
      have hspan := hus.trans ((spans_of_peek hq (by simp)).trans (hvs.trans
        ((expect_ok hcolon).trans hws)))
      refine ⟨us ++ .symbol .question :: (vs ++ .symbol .colon :: ws), by simp [hne], hspan,
        .succ fun {fuel' _ rest'} hs hf hr => ?_⟩
      obtain ⟨mid, hus', hs, _⟩ := hs.split
      obtain ⟨hquestion, hs, _⟩ := hs.uncons
      obtain ⟨before, hvs', hs, _⟩ := hs.split
      obtain ⟨hcolon', hws', _⟩ := hs.uncons
      have hlast : expression fuel' room (before.drop 1) = .ok (n, rest') :=
        hno.reads hws' (by omega) hr
      refine bind_eq_ok.mpr ⟨_, hfirst.reads hus' (by omega) (by rw [hquestion]; decide), ?_⟩
      dsimp only
      rw [if_pos hquestion]
      refine bind_eq_ok.mpr ⟨_, hyes.reads hvs' (by omega) (by rw [hcolon']; decide), ?_⟩
      refine bind_eq_ok.mpr ⟨_, expect_of_peek hcolon', ?_⟩
      exact bind_eq_ok.mpr ⟨_, hlast, rfl⟩
    next =>
      cases h
      refine ⟨us, hne, hus, .succ fun hs hf hr => ?_⟩
      refine bind_eq_ok.mpr ⟨_, hfirst.reads hs (by omega) (Nat.le_of_succ_le hr), ?_⟩
      exact if_neg (peek_ne_of_reach (Nat.lt_of_succ_le hr) (by decide))

theorem chain_local (h : chain (fuel + 1) level room ts = .ok (e, rest)) :
    Takes (2 * level.number + 1) (level.number + 1) (chain · level room ·) ts rest e := by
  obtain ⟨⟨first, mid⟩, hf, h⟩ := bind_eq_ok.mp h
  exact Takes.loop (fun left => (chainFrom · level left room ·)) (ih.operand hf)
    (ih.chainFrom h) fun _ _ => rfl

theorem chainFrom_local (h : chainFrom (fuel + 1) level left room ts = .ok (e, rest)) :
    Extends level.number (chainFrom · level left room ·) ts rest e := by
  unfold chainFrom at h
  split at h
  next =>
    cases h
    refine ⟨[], by simp, rfl, .succ fun hs _ hr => ?_⟩
    cases hs
    exact chainFrom_stop hr
  next => cases h
  next op room hop =>
    obtain ⟨rfl, ht⟩ := operator?_eq_some.mp hop
    obtain ⟨⟨right, after⟩, ho, h⟩ := bind_eq_ok.mp h
    obtain ⟨us, _, hus, hright⟩ := ih.operand ho
    obtain ⟨vs, hhead, hvs, hloop⟩ := ih.chainFrom h
    have hspan : Spans [op.token] ts (ts.drop 1) :=
      spans_of_peek ht.symm (by cases op <;> simp [BinaryOp.token])
    refine ⟨op.token :: (us ++ vs), fun _ => by rw [← ht, op.reach_token],
      hspan.trans (hus.trans hvs), .succ fun {fuel' ts' rest'} hs hf hr => ?_⟩
    obtain ⟨hop', hs, _⟩ := hs.uncons
    obtain ⟨mid, hus', hvs', _⟩ := hs.split
    change chainFrom (fuel' + 1) _ _ (room + 1) ts' = _
    unfold chainFrom
    rw [operator?_eq_some.mpr ⟨rfl, hop'.symm⟩]
    have := level_number_le op.level
    refine bind_eq_ok.mpr ⟨_, hright.reads hus' (by omega) ?_, hloop.reads hvs' (by omega) hr⟩
    exact reach_le_peek hhead hvs hvs' (by omega)

theorem operand_local (h : operand (fuel + 1) level room ts = .ok (e, rest)) :
    Takes (2 * level.number) level.number (operand · level room ·) ts rest e := by
  cases level with
  | or | and | comparison | sum => exact (ih.chain h).hand (by decide) fun _ _ _ => rfl
  | product => exact (ih.signed h).hand (by decide) fun _ _ _ => rfl

theorem signed_local (h : signed (fuel + 1) room ts = .ok (e, rest)) :
    Takes 3 2 (signed · room ·) ts rest e := by
  unfold signed at h
  split at h
  next hnone =>
    refine (ih.selection h).hand (by decide) fun fuel' ts' hts => ?_
    unfold signed
    rw [hts, hnone]
  next => cases h
  next op room hop =>
    obtain ⟨⟨operand, after⟩, ho, h⟩ := bind_eq_ok.mp h
    cases h
    obtain ⟨us, _, hus, hoperand⟩ := ih.signed ho
    have hspan : Spans [op.token] ts (ts.drop 1) :=
      spans_of_peek (sign?_eq_some.mp hop).symm (by cases op <;> simp [UnaryOp.token])
    refine ⟨op.token :: us, by simp, hspan.trans hus, .succ fun {fuel' ts' rest'} hs hf hr => ?_⟩
    obtain ⟨hop', hus', _⟩ := hs.uncons
    change signed (fuel' + 1) (room + 1) ts' = _
    unfold signed
    rw [sign?_eq_some.mpr hop'.symm]
    exact bind_eq_ok.mpr ⟨_, hoperand.reads hus' (by omega) hr, rfl⟩

theorem selection_local (h : selection (fuel + 1) room ts = .ok (e, rest)) :
    Takes 2 2 (selection · room ·) ts rest e := by
  obtain ⟨⟨first, mid⟩, hf, h⟩ := bind_eq_ok.mp h
  exact Takes.loop (fun left => (selectionFrom · left room ·)) (ih.primary hf)
    (ih.selectionFrom h) fun _ _ => rfl

theorem selectionFrom_local (h : selectionFrom (fuel + 1) left room ts = .ok (e, rest)) :
    Extends 1 (selectionFrom · left room ·) ts rest e := by
  unfold selectionFrom at h
  split at h
  next => cases h
  next room hdot =>
    obtain ⟨⟨field, named⟩, hn, h⟩ := bind_eq_ok.mp h
    have hhead := (spans_of_peek hdot (by simp)).trans (name_ok hn)
    dsimp only at h
    split at h
    next hparen =>
      obtain ⟨⟨arguments, after⟩, ha, h⟩ := bind_eq_ok.mp h
      obtain ⟨us, _, hus, harguments⟩ := ih.elements (.inl rfl) ha
      obtain ⟨vs, hvhead, hvs, hloop⟩ := ih.selectionFrom h
      refine ⟨.symbol .dot :: .identifier field :: .symbol .leftParen :: (us ++ vs),
        fun _ => by rw [hdot]; decide,
        hhead.trans ((spans_of_peek hparen (by simp)).trans (hus.trans hvs)),
        .succ fun {fuel' ts' rest'} hs hf hr => ?_⟩
      obtain ⟨hdot', hs, _⟩ := hs.uncons
      obtain ⟨hname', hs, _⟩ := hs.uncons
      obtain ⟨hparen', hs, _⟩ := hs.uncons
      obtain ⟨mid, hus', hvs', _⟩ := hs.split
      change selectionFrom (fuel' + 1) _ (room + 1) ts' = _
      unfold selectionFrom
      rw [hdot']
      refine bind_eq_ok.mpr ⟨_, name_of_peek hname', ?_⟩
      dsimp only
      rw [if_pos hparen']
      have hgo : selectionFrom fuel' (.call field (some left) arguments) room mid =
          .ok (e, rest') := hloop.reads hvs' (by omega) hr
      exact bind_eq_ok.mpr ⟨_, harguments.reads hus' (by omega) (Nat.zero_le _), hgo⟩
    next hnone =>
      obtain ⟨vs, hvhead, hvs, hloop⟩ := ih.selectionFrom h
      refine ⟨.symbol .dot :: .identifier field :: vs, fun _ => by rw [hdot]; decide,
        hhead.trans hvs, .succ fun {fuel' ts' rest'} hs hf hr => ?_⟩
      obtain ⟨hdot', hs, _⟩ := hs.uncons
      obtain ⟨hname', hvs', _⟩ := hs.uncons
      -- what follows the name is no parenthesis here either
      have hnone' : peek ((ts'.drop 1).drop 1) ≠ .symbol .leftParen :=
        peek_ne_of_reach (reach_le_peek hvhead hvs hvs' (by omega)) (by decide)
      change selectionFrom (fuel' + 1) _ (room + 1) ts' = _
      unfold selectionFrom
      rw [hdot']
      refine bind_eq_ok.mpr ⟨_, name_of_peek hname', ?_⟩
      dsimp only
      rw [if_neg hnone']
      exact hloop.reads hvs' (by omega) hr
  next => cases h
  next room hbracket =>
    obtain ⟨⟨position, inside⟩, hp, h⟩ := bind_eq_ok.mp h
    obtain ⟨after, hclose, h⟩ := bind_eq_ok.mp h
    obtain ⟨us, _, hus, hposition⟩ := ih.expression hp
    obtain ⟨vs, hvhead, hvs, hloop⟩ := ih.selectionFrom h
    refine ⟨.symbol .leftBracket :: (us ++ .symbol .rightBracket :: vs),
      fun _ => by rw [hbracket]; decide,
      (spans_of_peek hbracket (by simp)).trans (hus.trans ((expect_ok hclose).trans hvs)),
      .succ fun {fuel' ts' rest'} hs hf hr => ?_⟩
    obtain ⟨hbracket', hs, _⟩ := hs.uncons
    obtain ⟨mid, hus', hs, _⟩ := hs.split
    obtain ⟨hclose', hvs', _⟩ := hs.uncons
    change selectionFrom (fuel' + 1) _ (room + 1) ts' = _
    unfold selectionFrom
    rw [hbracket']
    refine bind_eq_ok.mpr ⟨_, hposition.reads hus' (by omega) (by rw [hclose']; decide), ?_⟩
    exact bind_eq_ok.mpr ⟨_, expect_of_peek hclose', hloop.reads hvs' (by omega) hr⟩
  next =>
    cases h
    refine ⟨[], by simp, rfl, .succ fun hs _ hr => ?_⟩
    cases hs
    exact selectionFrom_stop hr

theorem primary_local (h : primary (fuel + 1) room ts = .ok (e, rest)) :
    Takes 1 1 (primary · room ·) ts rest e := by
  unfold primary at h
  split at h
  next hp => cases h; exact primary_token (by simp) hp fun hts => by unfold primary; rw [hts]
  next hp => cases h; exact primary_token (by simp) hp fun hts => by unfold primary; rw [hts]
  next hp => cases h; exact primary_token (by simp) hp fun hts => by unfold primary; rw [hts]
  next n hp => cases h; exact primary_token (by simp) hp fun hts => by unfold primary; rw [hts]
  next d hp => cases h; exact primary_token (by simp) hp fun hts => by unfold primary; rw [hts]
  next raw hp =>
    obtain ⟨s, hs, h⟩ := bind_eq_ok.mp h
    cases h
    refine primary_token (by simp) hp fun hts => ?_
    unfold primary
    rw [hts]
    exact bind_eq_ok.mpr ⟨s, hs, rfl⟩
  next n hp =>
    have hname := spans_of_peek hp (by simp)
    split at h
    next hparen =>
      obtain ⟨⟨arguments, after⟩, ha, h⟩ := bind_eq_ok.mp h
      obtain ⟨call, hcall, h⟩ := bind_eq_ok.mp h
      cases h
      obtain ⟨us, _, hus, harguments⟩ := ih.elements (.inl rfl) ha
      have hparen := spans_of_peek hparen (by simp)
      rw [List.drop_drop] at hparen
      refine ⟨.identifier n :: .symbol .leftParen :: us, by simp, hname.trans (hparen.trans hus),
        .succ fun {fuel' ts' rest'} hs hf _ => ?_⟩
      obtain ⟨hname', hs, _⟩ := hs.uncons
      obtain ⟨hparen', hus', _⟩ := hs.uncons
      rw [List.drop_drop] at *
      have hread : elements fuel' .rightParen room (ts'.drop (1 + 1)) = .ok (arguments, rest') :=
        harguments.reads hus' (by omega) (Nat.zero_le _)
      unfold primary
      rw [hname']
      dsimp only
      rw [if_pos hparen']
      refine bind_eq_ok.mpr ⟨_, hread, ?_⟩
      exact bind_eq_ok.mpr ⟨_, hcall, rfl⟩
    next =>
      cases h
      refine ⟨[.identifier n], by simp, hname, .succ fun {fuel' ts' rest'} hs _ hr => ?_⟩
      obtain ⟨hname', _, rfl⟩ := hs
      unfold primary
      rw [hname']
      dsimp only
      rw [if_neg (peek_ne_of_reach hr (by decide))]
  next hp =>
    obtain ⟨⟨inner, inside⟩, hi, h⟩ := bind_eq_ok.mp h
    obtain ⟨after, hclose, h⟩ := bind_eq_ok.mp h
    cases h
    obtain ⟨us, _, hus, hinner⟩ := ih.expression hi
    refine ⟨.symbol .leftParen :: (us ++ [.symbol .rightParen]), by simp,
      (spans_of_peek hp (by simp)).trans (hus.trans (expect_ok hclose)),
      .succ fun {fuel' ts' rest'} hs hf _ => ?_⟩
    obtain ⟨hp', mid, hus', ⟨hclose', _, rfl⟩, _⟩ := hs.inside
    unfold primary
    rw [hp']
    refine bind_eq_ok.mpr ⟨_, hinner.reads hus' (by omega) (by rw [hclose']; decide), ?_⟩
    exact bind_eq_ok.mpr ⟨_, expect_of_peek hclose', rfl⟩
  next hp =>
    obtain ⟨⟨items, after⟩, hi, h⟩ := bind_eq_ok.mp h
    cases h
    obtain ⟨us, _, hus, hitems⟩ := ih.elements (.inr (.inl rfl)) hi
    refine ⟨.symbol .leftBracket :: us, by simp, (spans_of_peek hp (by simp)).trans hus,
      .succ fun {fuel' ts' rest'} hs hf _ => ?_⟩
    obtain ⟨hp', hus', _⟩ := hs.uncons
    unfold primary
    rw [hp']
    exact bind_eq_ok.mpr ⟨_, hitems.reads hus' (by omega) (Nat.zero_le _), rfl⟩
  next hp =>
    obtain ⟨⟨found, after⟩, hi, h⟩ := bind_eq_ok.mp h
    cases h
    obtain ⟨us, _, hus, hentries⟩ := ih.entries hi
    refine ⟨.symbol .leftBrace :: us, by simp, (spans_of_peek hp (by simp)).trans hus,
      .succ fun {fuel' ts' rest'} hs hf _ => ?_⟩
    obtain ⟨hp', hus', _⟩ := hs.uncons
    unfold primary
    rw [hp']
    exact bind_eq_ok.mpr ⟨_, hentries.reads hus' (by omega) (Nat.zero_le _), rfl⟩
  all_goals cases h

theorem elements_local (hc : close.closes) (h : elements (fuel + 1) close room ts = .ok (es, rest)) :
    Takes 16 0 (elements · close room ·) ts rest es := by
  unfold elements at h
  split at h
  next hp =>
    cases h
    refine ⟨[.symbol close], by simp, spans_of_peek hp (by simp), .succ fun hs _ _ => ?_⟩
    obtain ⟨hp', _, rfl⟩ := hs
    exact if_pos hp'
  next hp =>
    refine (ih.elementsFrom hc h).hand (Nat.le_refl 0) fun fuel' ts' hts => ?_
    exact if_neg (hts ▸ hp)

theorem elementsFrom_local (hc : close.closes)
    (h : elementsFrom (fuel + 1) close done room ts = .ok (es, rest)) :
    Takes 15 0 (elementsFrom · close done room ·) ts rest es := by
  obtain ⟨⟨first, after⟩, hf, h⟩ := bind_eq_ok.mp h
  obtain ⟨us, hne, hus, hfirst⟩ := ih.expression hf
  dsimp only at h
  split at h
  next hmore =>
    obtain ⟨vs, hvne, hvs, hloop⟩ := ih.elementsFrom hc h
    refine ⟨us ++ .symbol .comma :: vs, by simp [hne],
      hus.trans ((spans_of_peek hmore.1 (by simp)).trans hvs), .succ fun hs hf _ => ?_⟩
    obtain ⟨mid, hus', hs, _⟩ := hs.split
    obtain ⟨hcomma', hvs', _⟩ := hs.uncons
    refine bind_eq_ok.mpr ⟨_, hfirst.reads hus' (by omega) (by rw [hcomma']; decide), ?_⟩
    dsimp only
    rw [if_pos ⟨hcomma', by rw [peek_eq hvne hvs hvs']; exact hmore.2⟩]
    exact hloop.reads hvs' (by omega) (Nat.zero_le _)
  next =>
    obtain ⟨closed, hclose, h⟩ := bind_eq_ok.mp h
    cases h
    obtain ⟨vs, hvs, hend⟩ := tokens_of_closed (closed_of_expect hclose)
    refine ⟨us ++ vs, by simp [hne], hus.trans hvs, .succ fun hs hf _ => ?_⟩
    obtain ⟨mid, hus', hvs', _⟩ := hs.split
    refine bind_eq_ok.mpr ⟨_, hfirst.reads hus' (by omega) (reach_of_closed (hend hvs') hc), ?_⟩
    dsimp only
    rw [if_neg (not_more_of_closed (hend hvs') hc)]
    exact bind_eq_ok.mpr ⟨_, expect_of_closed (hend hvs') hc, rfl⟩

theorem entries_local (h : entries (fuel + 1) room ts = .ok (ps, rest)) :
    Takes 16 0 (entries · room ·) ts rest ps := by
  unfold entries at h
  split at h
  next hp =>
    cases h
    refine ⟨[.symbol .rightBrace], by simp, spans_of_peek hp (by simp), .succ fun hs _ _ => ?_⟩
    obtain ⟨hp', _, rfl⟩ := hs
    exact if_pos hp'
  next hp =>
    refine (ih.entriesFrom h).hand (Nat.le_refl 0) fun fuel' ts' hts => ?_
    exact if_neg (hts ▸ hp)

theorem entriesFrom_local (h : entriesFrom (fuel + 1) found room ts = .ok (ps, rest)) :
    Takes 15 0 (entriesFrom · found room ·) ts rest ps := by
  have hc : Symbol.rightBrace.closes := .inr (.inr rfl)
  unfold entriesFrom at h
  split at h
  next raw hp =>
    obtain ⟨key, hk, h⟩ := bind_eq_ok.mp h
    obtain ⟨afterColon, hcolon, h⟩ := bind_eq_ok.mp h
    obtain ⟨⟨value, after⟩, hv, h⟩ := bind_eq_ok.mp h
    obtain ⟨cs, hcs, rfl⟩ := stringOf_eq_ok.mp hk
    obtain ⟨us, _, hus, hvalue⟩ := ih.expression hv
    have hpair := (spans_of_peek hp (by simp)).trans ((expect_ok hcolon).trans hus)
    dsimp only at h
    split at h
    next hmore =>
      obtain ⟨vs, hvne, hvs, hloop⟩ := ih.entriesFrom h
      refine ⟨.string raw :: .symbol .colon :: (us ++ .symbol .comma :: vs), by simp,
        hpair.trans ((spans_of_peek hmore.1 (by simp)).trans hvs), .succ fun hs hf _ => ?_⟩
      obtain ⟨hp', hs, _⟩ := hs.uncons
      obtain ⟨hcolon', hs, _⟩ := hs.uncons
      obtain ⟨mid, hus', hs, _⟩ := hs.split
      obtain ⟨hcomma', hvs', _⟩ := hs.uncons
      have hmore' : peek (mid.drop 1) ≠ .symbol .rightBrace := by
        rw [peek_eq hvne hvs hvs']
        exact hmore.2
      refine Or.resolve_right (entriesFrom_round hcs hp' hcolon' (.inl (hvalue.reads hus' (by omega) ?_))
        id (.inl ?_)) And.right
      · rw [hcomma']
        decide
      · rw [if_pos ⟨hcomma', hmore'⟩]
        exact hloop.reads hvs' (by omega) (Nat.zero_le _)
    next =>
      obtain ⟨closed, hclose, h⟩ := bind_eq_ok.mp h
      cases h
      obtain ⟨vs, hvs, hend⟩ := tokens_of_closed (closed_of_expect hclose)
      refine ⟨.string raw :: .symbol .colon :: (us ++ vs), by simp, hpair.trans hvs,
        .succ fun hs hf _ => ?_⟩
      obtain ⟨hp', hs, _⟩ := hs.uncons
      obtain ⟨hcolon', hs, _⟩ := hs.uncons
      obtain ⟨mid, hus', hvs', _⟩ := hs.split
      refine Or.resolve_right (entriesFrom_round hcs hp' hcolon' (.inl (hvalue.reads hus' (by omega) ?_))
        id (.inl ?_)) And.right
      · exact reach_of_closed (hend hvs') hc
      · rw [if_neg (not_more_of_closed (hend hvs') hc)]
        exact bind_eq_ok.mpr ⟨_, expect_of_closed (hend hvs') hc, rfl⟩
  next => cases h

end

theorem locality (fuel : Nat) : Locality fuel := by
  induction fuel with
  | zero => constructor <;> intros <;> contradiction
  | succ fuel ih =>
    exact {
      expression := expression_local ih
      chain := chain_local ih
      chainFrom := chainFrom_local ih
      operand := operand_local ih
      signed := signed_local ih
      selection := selection_local ih
      selectionFrom := selectionFrom_local ih
      primary := primary_local ih
      elements := elements_local ih
      elementsFrom := elementsFrom_local ih
      entries := entries_local ih
      entriesFrom := entriesFrom_local ih }

section
variable {fuel room : Nat} {level : Level} {us : List Token} {ts rest : Tokens} {e : Expr}

/-- What is read once is read anywhere. -/
theorem portable_of_expression {r : Expr × Tokens} (h : expression fuel room ts = .ok r)
    (hd : Derives (.expression e) us) (hs : Spans us ts rest) (hf : 16 * ts.length + 14 ≤ fuel)
    (hr : 7 < (peek rest).reach) : Portable 14 8 (expression · room ·) us e := by
  rcases @derives_reads _ _ hd fuel room ts rest hs hf hr with hx | ⟨hx, _⟩
  · obtain ⟨vs, _, hvs, hread⟩ := (locality fuel).expression hx
    exact hs.unique hvs ▸ hread
  · cases h.symm.trans hx

theorem selection_of_primary (h : Portable 1 1 (primary · room ·) us e) :
    Portable 2 2 (selection · room ·) us e := by
  refine .succ fun {fuel ts rest} hs hf hr => ?_
  obtain ⟨fuel, rfl⟩ : ∃ n, fuel = n + 1 := ⟨fuel - 1, by omega⟩
  exact bind_eq_ok.mpr ⟨_, h.reads hs hf (by omega), selectionFrom_stop hr⟩

theorem signed_of_selection (hb : Headed (·.starts) us)
    (h : Portable 2 2 (selection · room ·) us e) : Portable 3 2 (signed · room ·) us e := by
  refine .succ fun {fuel ts rest} hs hf hr => ?_
  unfold signed
  rw [sign?_eq_none (hb.peek hs)]
  exact h.reads hs hf hr

theorem chain_of_operand (level : Level)
    (h : Portable (2 * level.number) level.number (operand · level room ·) us e) :
    Portable (2 * level.number + 1) (level.number + 1) (chain · level room ·) us e := by
  have hpos : 0 < level.number := by cases level <;> decide
  refine .succ fun {fuel ts rest} hs hf hr => ?_
  obtain ⟨fuel, rfl⟩ : ∃ n, fuel = n + 1 := ⟨fuel - 1, by omega⟩
  exact bind_eq_ok.mpr ⟨_, h.reads hs hf (by omega), chainFrom_stop hr⟩

/-- A signed expression is a chain of each level, without an operator of any. -/
theorem chain_of_signed (h : Portable 3 2 (signed · room ·) us e) :
    Portable 13 7 (chain · .or room ·) us e := by
  have hproduct : Portable 5 3 (chain · .product room ·) us e :=
    chain_of_operand .product (.succ h.reads)
  have hsum : Portable 7 4 (chain · .sum room ·) us e :=
    chain_of_operand .sum (.succ hproduct.reads)
  have hcomparison : Portable 9 5 (chain · .comparison room ·) us e :=
    chain_of_operand .comparison (.succ hsum.reads)
  have hand : Portable 11 6 (chain · .and room ·) us e :=
    chain_of_operand .and (.succ hcomparison.reads)
  exact chain_of_operand .or (.succ hand.reads)

/-- A primary expression is an expression with one more level of room. -/
theorem expression_of_primary (hb : Headed (·.starts) us)
    (h : Portable 1 1 (primary · room ·) us e) :
    Portable 14 8 (expression · (room + 1) ·) us e := by
  have hchain := chain_of_signed (signed_of_selection hb (selection_of_primary h))
  refine .succ fun {fuel ts rest} hs hf hr => ?_
  refine bind_eq_ok.mpr ⟨_, hchain.reads hs hf (by omega), ?_⟩
  exact if_neg (peek_ne_of_reach (Nat.lt_of_succ_le hr) (by decide))

/-- A chain begins with a signed expression. -/
theorem signed_of_chain {r : Expr × Tokens} (h : chain fuel level room ts = .ok r) :
    ∃ fuel' r', fuel + 2 ≤ fuel' + 2 * level.number ∧ signed fuel' room ts = .ok r' := by
  induction fuel using Nat.strong_induction_on generalizing level r with
  | _ fuel ih =>
    obtain _ | _ | fuel := fuel
    · cases h
    · cases h
    obtain ⟨first, hf, -⟩ := bind_eq_ok.mp h
    cases level with
    | product => exact ⟨fuel, first, by simp only [Level.number]; omega, hf⟩
    | or | and | comparison | sum =>
      obtain ⟨fuel', r', hle, hs⟩ := ih fuel (by omega) hf
      exact ⟨fuel', r', by simp only [Level.number] at hle ⊢; omega, hs⟩

/-- What stands in parentheses has been read with one level of room less. -/
theorem inside_of_paren {r : Expr × Tokens} (h : expression fuel (room + 1) ts = .ok r)
    (hp : peek ts = .symbol .leftParen) :
    ∃ fuel' r', fuel ≤ fuel' + 14 ∧ expression fuel' room (ts.drop 1) = .ok r' := by
  obtain _ | fuel := fuel
  · cases h
  obtain ⟨condition, hc, -⟩ := bind_eq_ok.mp h
  obtain ⟨more, e, hle, hs⟩ := signed_of_chain hc
  have hnumber : Level.or.number = 6 := rfl
  obtain _ | more := more
  · cases hs
  unfold signed at hs
  rw [hp] at hs
  obtain _ | more := more
  · cases hs
  obtain ⟨first, hf, -⟩ := bind_eq_ok.mp hs
  obtain _ | more := more
  · cases hf
  unfold primary at hf
  rw [hp] at hf
  obtain ⟨inner, hi, -⟩ := bind_eq_ok.mp hf
  exact ⟨more, inner, by omega, hi⟩

end

end Parser

end EventStream
