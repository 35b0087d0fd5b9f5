import EventStream.Proofs.Syntax.Operators

namespace EventStream

namespace Parser

section
variable {us vs : List Token} {e : Expr}

theorem first_selection_reads (h : (Phrase.primary e).IsRead us) (hb : Headed (·.starts) us) :
    (Phrase.selection e).IsRead us := by
  intro fuel room ts rest hs hf hr
  have hpos := hb.length_pos
  obtain _ | fuel := fuel
  · omega
  refine ⟨fuel, room, by omega, by omega, ?_⟩
  exact (h hs (by omega) hr).bind id (.inl rfl)

theorem selectionFrom_tooDeep {ts : Tokens} {fuel : Nat}
    (h : peek ts = .symbol .dot ∨ peek ts = .symbol .leftBracket) :
    selectionFrom (fuel + 1) e 0 ts = tooDeep := by
  unfold selectionFrom
  rcases h with h | h <;> rw [h]

theorem member_reads {field : String} (h : (Phrase.selection e).IsRead us) :
    (Phrase.selection (.member e field)).IsRead (us ++ [.symbol .dot, .identifier field]) := by
  intro fuel room ts rest hs hf hr
  obtain ⟨mid, hus, hvs⟩ := spans_append.mp hs
  have := hus.length_eq
  obtain ⟨hdot, _, hfield, _, rfl⟩ := hvs
  simp only [List.length_append, List.length_cons, List.length_nil] at *
  refine (h hus hf (by rw [hdot]; decide)).round (by omega) (by omega)
    (fun _ => selectionFrom_tooDeep (.inl hdot)) ?_
  intro fuel' room' _ _
  -- the round after this one stands aside, lest it be unfolded too
  generalize hz : selectionFrom fuel' _ room' _ = z
  unfold selectionFrom
  rw [hdot]
  refine bind_of_ok (name_of_peek hfield) ?_
  dsimp only
  rw [if_neg (peek_ne_of_reach hr (by decide))]
  exact .inl hz

theorem method_reads {function : String} {es : List Expr} (h : (Phrase.selection e).IsRead us)
    (ha : (Phrase.arguments es).IsRead vs) :
    (Phrase.selection (.call function (some e) es)).IsRead
      (us ++ .symbol .dot :: .identifier function :: .symbol .leftParen ::
        (vs ++ [.symbol .rightParen])) := by
  intro fuel room ts rest hs hf hr
  obtain ⟨mid, hus, hrest⟩ := spans_append.mp hs
  have := hus.length_eq
  have := hrest.length_eq
  obtain ⟨hdot, _, hname, _, hrest⟩ := hrest
  have := hrest.length_eq
  obtain ⟨hparen, closing, hvs, hclose, hlength⟩ := hrest.inside
  simp only [List.length_append, List.length_cons, List.length_nil] at *
  refine (h hus hf (by rw [hdot]; decide)).round (by omega) (by omega)
    (fun _ => selectionFrom_tooDeep (.inl hdot)) ?_
  intro fuel' room' _ _
  generalize hz : selectionFrom fuel' _ room' _ = z
  unfold selectionFrom
  rw [hdot]
  refine bind_of_ok (name_of_peek hname) ?_
  dsimp only
  rw [if_pos hparen]
  exact (ha hvs hclose (.inl rfl) (by omega)).bind (by omega) (.inl hz)

theorem index_reads {p : Expr} (h : (Phrase.selection e).IsRead us)
    (hp : (Phrase.expression p).IsRead vs) :
    (Phrase.selection (.index e p)).IsRead
      (us ++ .symbol .leftBracket :: (vs ++ [.symbol .rightBracket])) := by
  intro fuel room ts rest hs hf hr
  obtain ⟨mid, hus, hrest⟩ := spans_append.mp hs
  have := hus.length_eq
  obtain ⟨hbracket, closing, hvs, ⟨hclose, _, rfl⟩, hlength⟩ := hrest.inside
  simp only [List.length_append, List.length_cons, List.length_nil] at *
  refine (h hus hf (by rw [hbracket]; decide)).round (by omega) (by omega)
    (fun _ => selectionFrom_tooDeep (.inr hbracket)) ?_
  intro fuel' room' _ _
  generalize hz : selectionFrom fuel' _ room' _ = z
  unfold selectionFrom
  rw [hbracket]
  refine (hp hvs (by omega) (by rw [hclose]; decide)).bind (by omega) ?_
  exact bind_of_ok (expect_of_peek hclose) (.inl hz)

theorem literal_reads {t : Token}
    (h : ∀ {fuel room ts}, peek ts = t → primary (fuel + 1) room ts = .ok (e, ts.drop 1)) :
    (Phrase.primary e).IsRead [t] := by
  intro fuel room ts rest hs hf _
  obtain ⟨ht, _, rfl⟩ := hs
  obtain _ | fuel := fuel
  · omega
  exact .inl (h ht)

theorem string_reads {raw s : List Char} (h : Escaped raw s) :
    (Phrase.primary (.string (String.ofList s))).IsRead [.string raw] := by
  refine literal_reads fun {fuel room ts} ht => ?_
  unfold primary
  rw [ht]
  exact bind_eq_ok.mpr ⟨_, stringOf_eq_ok.mpr ⟨s, h, rfl⟩, rfl⟩

theorem variable_reads {name : String} :
    (Phrase.primary (.variable name)).IsRead [.identifier name] := by
  intro fuel room ts rest hs hf hr
  obtain ⟨hn, _, rfl⟩ := hs
  obtain _ | fuel := fuel
  · omega
  unfold primary
  rw [hn]
  dsimp only
  rw [if_neg (peek_ne_of_reach hr (by decide))]
  exact .inl rfl

/-- A call by name, whatever becomes of it. -/
theorem call_reads {function : String} {es : List Expr} (ha : (Phrase.arguments es).IsRead us)
    (hc : callOf function es = .ok e) :
    (Phrase.primary e).IsRead
      (.identifier function :: .symbol .leftParen :: (us ++ [.symbol .rightParen])) := by
  intro fuel room ts rest hs hf hr
  have := hs.length_eq
  obtain ⟨hname, _, hs⟩ := hs
  obtain ⟨hparen, closing, hus, hclose, hlength⟩ := hs.inside
  have := hs.length_eq
  rw [List.drop_drop] at hus hlength
  simp only [List.length_append, List.length_cons, List.length_nil] at *
  obtain _ | fuel := fuel
  · omega
  unfold primary
  rw [hname]
  dsimp only
  rw [if_pos hparen]
  refine (ha hus hclose (.inl rfl) (by omega)).bind (by omega) ?_
  exact bind_of_ok hc (.inl rfl)

theorem paren_reads (h : (Phrase.expression e).IsRead us) :
    (Phrase.primary e).IsRead (.symbol .leftParen :: (us ++ [.symbol .rightParen])) := by
  intro fuel room ts rest hs hf hr
  obtain ⟨hparen, closing, hus, ⟨hclose, _, rfl⟩, hlength⟩ := hs.inside
  simp only [List.length_append, List.length_cons, List.length_nil] at *
  obtain _ | fuel := fuel
  · omega
  unfold primary
  rw [hparen]
  refine (h hus (by omega) (by rw [hclose]; decide)).bind (by omega) ?_
  exact bind_of_ok (expect_of_peek hclose) (.inl rfl)

theorem list_reads {es : List Expr} (h : (Phrase.arguments es).IsRead us) :
    (Phrase.primary (.list es)).IsRead (.symbol .leftBracket :: (us ++ [.symbol .rightBracket])) := by
  intro fuel room ts rest hs hf hr
  obtain ⟨hbracket, closing, hus, hclose, hlength⟩ := hs.inside
  simp only [List.length_append, List.length_cons, List.length_nil] at *
  obtain _ | fuel := fuel
  · omega
  unfold primary
  rw [hbracket]
  exact (h hus hclose (.inr (.inl rfl)) (by omega)).bind (by omega) (.inl rfl)

theorem map_reads {es : List (String × Expr)} (h : (Phrase.entries es).IsRead us) :
    (Phrase.primary (.map es)).IsRead (.symbol .leftBrace :: (us ++ [.symbol .rightBrace])) := by
  intro fuel room ts rest hs hf hr
  obtain ⟨hbrace, closing, hus, hclose, hlength⟩ := hs.inside
  simp only [List.length_append, List.length_cons, List.length_nil] at *
  obtain _ | fuel := fuel
  · omega
  unfold primary
  rw [hbrace]
  exact (h hus hclose (by omega)).bind (by omega) (.inl rfl)

end

section
variable {close : Symbol} {mid rest : Tokens} {us vs : List Token} {e : Expr} {es : List Expr}
  {ps : List (String × Expr)}

theorem item_reads (h : (Phrase.expression e).IsRead us) : (Phrase.items [e]).IsRead us := by
  intro fuel room close done ts mid rest hs hend hc hf
  obtain _ | fuel := fuel
  · omega
  refine (h hs (by omega) (reach_of_closed hend hc)).bind id ?_
  dsimp only
  rw [if_neg (not_more_of_closed hend hc)]
  refine bind_of_ok (expect_of_closed hend hc) (.inl ?_)
  simp

theorem comma_reads (h : (Phrase.expression e).IsRead us) (hes : (Phrase.items es).IsRead vs)
    (hb : Headed Token.startsSigned vs) :
    (Phrase.items (e :: es)).IsRead (us ++ .symbol .comma :: vs) := by
  intro fuel room close done ts mid rest hs hend hc hf
  obtain ⟨after, hus, hcomma, _, hvs⟩ := spans_append.mp hs
  have := hs.length_eq
  have := hvs.length_eq
  simp only [List.length_append, List.length_cons] at *
  obtain _ | fuel := fuel
  · omega
  refine (h hus (by omega) (by rw [hcomma]; decide)).bind (by omega) ?_
  dsimp only
  rw [if_pos ⟨hcomma, peek_ne_close hb hvs hc⟩]
  refine (hes hvs hend hc (by omega)).trans (by omega) (.inl ?_)
  simp

theorem noArguments_reads : (Phrase.arguments []).IsRead [] := by
  intro fuel room close ts mid rest hs hclose _ hf
  cases hs
  obtain ⟨hclose, _, rfl⟩ := hclose
  obtain _ | fuel := fuel
  · omega
  exact .inl (if_pos hclose)

/-- Items before their closing symbol, or before one more comma. -/
theorem arguments_reads {comma : List Token} (h : (Phrase.items es).IsRead us)
    (hb : Headed Token.startsSigned us) (hcomma : comma = [] ∨ comma = [.symbol .comma]) :
    (Phrase.arguments es).IsRead (us ++ comma) := by
  intro fuel room close ts mid rest hs hclose hc hf
  obtain ⟨before, hus, hrest⟩ := spans_append.mp hs
  have hend := closed_of_comma hcomma hrest hclose
  simp only [List.length_append] at *
  obtain _ | fuel := fuel
  · omega
  unfold elements
  rw [if_neg (peek_ne_close hb hus hc)]
  exact (h hus hend hc (by omega)).trans (by omega) (.inl rfl)

/-- A key and its value, and then what the loop makes of the entries so far. -/
theorem entriesFrom_round {p q : Prop} {fuel room : Nat} {ts : Tokens} {raw s : List Char}
    {z : Except Failure (List (String × Expr) × Tokens)} (hs : Escaped raw s)
    (hkey : peek ts = .string raw) (hcolon : peek (ts.drop 1) = .symbol .colon)
    (he : SameUnless p (expression fuel room ((ts.drop 1).drop 1)) (.ok (e, mid))) (hpq : p → q)
    (h : SameUnless q
      (if peek mid = .symbol .comma ∧ peek (mid.drop 1) ≠ .symbol .rightBrace then
        entriesFrom fuel ((String.ofList s, e) :: ps) room (mid.drop 1)
      else
        expect .rightBrace (if peek mid = .symbol .comma then mid.drop 1 else mid) >>= fun rest =>
          .ok (((String.ofList s, e) :: ps).reverse, rest)) z) :
    SameUnless q (entriesFrom (fuel + 1) ps room ts) z := by
  unfold entriesFrom
  rw [hkey]
  refine bind_of_ok (stringOf_eq_ok.mpr ⟨s, hs, rfl⟩) ?_
  refine bind_of_ok (expect_of_peek hcolon) ?_
  exact he.bind hpq h

theorem pair_reads {raw s : List Char} (hs : Escaped raw s) (h : (Phrase.expression e).IsRead us) :
    (Phrase.pairs [(String.ofList s, e)]).IsRead (.string raw :: .symbol .colon :: us) := by
  intro fuel room done ts mid rest hspan hend hf
  have := hspan.length_eq
  obtain ⟨hkey, _, hcolon, _, hus⟩ := hspan
  have := hus.length_eq
  have hc : Symbol.rightBrace.closes := .inr (.inr rfl)
  simp only [List.length_cons] at *
  obtain _ | fuel := fuel
  · omega
  refine entriesFrom_round hs hkey hcolon
    (h hus (by omega) (reach_of_closed hend hc)) (by omega) ?_
  rw [if_neg (not_more_of_closed hend hc)]
  refine bind_of_ok (expect_of_closed hend hc) (.inl ?_)
  simp

theorem pairsComma_reads {raw s : List Char} (hs : Escaped raw s)
    (h : (Phrase.expression e).IsRead us) (hps : (Phrase.pairs ps).IsRead vs)
    (hb : Headed Token.startsSigned vs) :
    (Phrase.pairs ((String.ofList s, e) :: ps)).IsRead
      (.string raw :: .symbol .colon :: (us ++ .symbol .comma :: vs)) := by
  intro fuel room done ts mid rest hspan hend hf
  have := hspan.length_eq
  obtain ⟨hkey, _, hcolon, _, hrest⟩ := hspan
  have := hrest.length_eq
  obtain ⟨after, hus, hcomma, _, hvs⟩ := spans_append.mp hrest
  have := hvs.length_eq
  have hc : Symbol.rightBrace.closes := .inr (.inr rfl)
  simp only [List.length_append, List.length_cons] at *
  obtain _ | fuel := fuel
  · omega
  refine entriesFrom_round hs hkey hcolon
    (h hus (by omega) (by rw [hcomma]; decide)) (by omega) ?_
  rw [if_pos ⟨hcomma, peek_ne_close hb hvs hc⟩]
  refine (hps hvs hend (by omega)).trans (by omega) (.inl ?_)
  simp

theorem noEntries_reads : (Phrase.entries []).IsRead [] := by
  intro fuel room ts mid rest hs hclose hf
  cases hs
  obtain ⟨hclose, _, rfl⟩ := hclose
  obtain _ | fuel := fuel
  · omega
  exact .inl (if_pos hclose)

theorem entries_reads {comma : List Token} (h : (Phrase.pairs ps).IsRead us)
    (hb : Headed Token.startsSigned us) (hcomma : comma = [] ∨ comma = [.symbol .comma]) :
    (Phrase.entries ps).IsRead (us ++ comma) := by
  intro fuel room ts mid rest hs hclose hf
  obtain ⟨before, hus, hrest⟩ := spans_append.mp hs
  have hend := closed_of_comma hcomma hrest hclose
  simp only [List.length_append] at *
  obtain _ | fuel := fuel
  · omega
  unfold entries
  rw [if_neg (peek_ne_close hb hus (.inr (.inr rfl)))]
  exact (h hus hend (by omega)).trans (by omega) (.inl rfl)

end

end Parser

end EventStream
