import TagScript.Proofs.Token.Order

/-! Rows of tokens cut out of a text. A row that begins with a visible token and does not
break off after a tag is, moved to the front, all that its own stretch of the text is
scanned to: no piece before it or after it has a part in its tokens. -/
namespace TagScript

def Span.excerpt (s : Span) (source : String) : String :=
  String.ofList (s.slice source.toList)

namespace Token

def extent (us : List Token) : Span :=
  ⟨(us.head?.map (·.span.start)).getD 0, (us.getLast?.map (·.span.stop)).getD 0⟩

structure Framed (us : List Token) (s : Span) : Prop where
  opens : ∃ t ∈ us.head?, t.kind ≠ .empty
  closes : ∃ t ∈ us.getLast?, t.kind ≠ .tag
  span_eq : s = extent us

section Extent

variable {t : Token} {us vs : List Token} {s : Span}

theorem Ordered.start_extent_le (ordered : Ordered us) (mem : t ∈ us) :
    (extent us).start ≤ t.span.start := by
  cases us with
  | nil => cases mem
  | cons first us =>
    change first.span.start ≤ t.span.start
    rcases List.mem_cons.mp mem with rfl | mem
    · exact Nat.le_refl _
    · have := ordered.proper first List.mem_cons_self
      have := List.rel_of_pairwise_cons ordered.apart mem
      omega

theorem Ordered.le_stop_extent (ordered : Ordered us) (mem : t ∈ us) :
    t.span.stop ≤ (extent us).stop := by
  obtain rfl | ⟨us, last, rfl⟩ := us.eq_nil_or_concat'
  · cases mem
  rw [extent, List.getLast?_concat]
  change t.span.stop ≤ last.span.stop
  rcases List.mem_append.mp mem with mem | mem
  · have := ordered.proper last (by simp)
    have := (List.pairwise_append.mp ordered.apart).2.2 t mem last (by simp)
    omega
  · rw [List.mem_singleton.mp mem]

theorem start_extent (mem : t ∈ us.head?) : (extent us).start = t.span.start := by
  rw [extent, Option.mem_def.mp mem]
  rfl

theorem stop_extent (mem : t ∈ us.getLast?) : (extent us).stop = t.span.stop := by
  rw [extent, Option.mem_def.mp mem]
  rfl

theorem Framed.single (visible : t.kind ≠ .empty) (closes : t.kind ≠ .tag) :
    Framed [t] t.span :=
  ⟨⟨t, rfl, visible⟩, ⟨t, rfl, closes⟩, rfl⟩

theorem Framed.cover {a b : Span} (us mid : List Token) (ordered : Ordered (us ++ (mid ++ vs)))
    (first : ∃ t ∈ us.head?, t.kind ≠ .empty) (a_eq : a = extent us) (last : Framed vs b) :
    Framed (us ++ (mid ++ vs)) (a.cover b) := by
  obtain ⟨t, t_mem, visible⟩ := first
  obtain ⟨w, w_mem, -⟩ := last.opens
  obtain ⟨u, u_mem, closes⟩ := last.closes
  obtain ⟨v, v_mem⟩ : ∃ v, v ∈ us.getLast? := by
    cases us with
    | nil => cases t_mem
    | cons first us => exact ⟨_, List.getLast?_eq_some_getLast (List.cons_ne_nil first us)⟩
  have opens : t ∈ (us ++ (mid ++ vs)).head? := by
    rw [List.head?_append, Option.mem_def.mp t_mem]
    rfl
  have ends : u ∈ (us ++ (mid ++ vs)).getLast? := by
    rw [← List.append_assoc, List.getLast?_append, Option.mem_def.mp u_mem]
    rfl
  refine ⟨⟨t, opens, visible⟩, ⟨u, ends, closes⟩, ?_⟩
  have start_le := ordered.start_extent_le
    (List.mem_append_right us (List.mem_append_right mid (List.mem_of_mem_head? w_mem)))
  have le_stop := ordered.le_stop_extent
    (List.mem_append_left (mid ++ vs) (List.mem_of_mem_getLast? v_mem))
  rw [a_eq, last.span_eq, Span.cover, start_extent t_mem, stop_extent v_mem, start_extent w_mem,
    stop_extent u_mem]
  rw [start_extent opens] at start_le
  rw [stop_extent ends] at le_stop
  rw [extent, Option.mem_def.mp opens, Option.mem_def.mp ends, Nat.min_eq_left start_le,
    Nat.max_eq_right le_stop]
  rfl

end Extent

end Token

namespace Piece

open Token

variable {piece : Piece} {pieces rest : List Piece} {us vs : List Token} {t : Token}
variable {position line : Nat}

theorem eq_nil_of_tokens_eq (h : piece.tokens position line (piece.isolated rest) = us ++ t :: vs)
    (visible : t.kind ≠ .empty) : us = [] ∧ t.span.start = position := by
  unfold tokens at h
  cases us with
  | nil =>
    refine ⟨rfl, ?_⟩
    split at h
    · cases h
    · cases h
      rfl
  | cons u us =>
    split at h
    · cases h
    · obtain ⟨-, h⟩ := List.cons.inj h
      have mem : t ∈ us.append (t :: vs) := List.mem_append_right us List.mem_cons_self
      rw [← h] at mem
      split at mem
      · rw [List.mem_singleton.mp mem] at visible
        exact absurd rfl visible
      · cases mem

theorem tokens_nil_of_tokens_eq (h : piece.tokens position line (piece.isolated rest) = us ++ vs)
    (last : t ∈ us.getLast?) (closes : t.kind ≠ .tag) :
    piece.tokens position line (piece.isolated []) = us ∧
      t.span.stop = position + piece.text.length := by
  unfold tokens at h ⊢
  cases lexeme_eq : piece.lexeme? with
  | none =>
    rw [lexeme_eq] at h
    obtain ⟨rfl, -⟩ := List.append_eq_nil_iff.mp h.symm
    cases last
  | some x =>
    rw [lexeme_eq] at h
    dsimp only at h ⊢
    cases us with
    | nil => cases last
    | cons u us =>
      obtain ⟨rfl, others⟩ := List.cons.inj h
      cases piece with
      | tag letters =>
        cases lexeme_eq
        cases us with
        | nil =>
          cases last
          exact absurd rfl closes
        | cons v us =>
          split at others
          · obtain ⟨rfl, nothing⟩ := List.cons.inj others
            obtain ⟨rfl, -⟩ := List.append_eq_nil_iff.mp nothing.symm
            cases last
            exact ⟨rfl, rfl⟩
          · cases others
      | _ =>
        obtain ⟨rfl, -⟩ := List.append_eq_nil_iff.mp others.symm
        cases last
        exact ⟨rfl, rfl⟩

theorem lineEnds_append_of_tokens (h : allTokens position line pieces ≠ []) :
    lineEnds (pieces ++ rest) = lineEnds pieces := by
  induction pieces generalizing position line with
  | nil => exact absurd rfl h
  | cons piece pieces ih =>
    cases piece with
    | blank c => exact ih h
    | _ => rfl

theorem exists_parted_before (h : allTokens position line pieces = us ++ t :: vs)
    (visible : t.kind ≠ .empty) :
    ∃ before others lines, pieces = before ++ others ∧
      allTokens t.span.start (line + lines) others = t :: vs ∧
      t.span.start = position + (before.flatMap text).length := by
  induction pieces generalizing position line us with
  | nil => simp [allTokens] at h
  | cons piece pieces ih =>
    have later {ws : List Token} (eq : allTokens (position + piece.text.length)
        (if piece = newline then line + 1 else line) pieces = ws ++ t :: vs) :
        ∃ before others lines, piece :: pieces = before ++ others ∧
          allTokens t.span.start (line + lines) others = t :: vs ∧
          t.span.start = position + (before.flatMap text).length := by
      obtain ⟨before, others, lines, rfl, tokens_eq, start_eq⟩ := ih eq
      refine ⟨piece :: before, others, (if piece = newline then 1 else 0) + lines, rfl, ?_, ?_⟩
      · rw [← tokens_eq]
        congr 1
        split <;> omega
      · simp only [start_eq, List.flatMap_cons, List.length_append]
        omega
    rw [allTokens, List.append_eq_append_iff] at h
    obtain ⟨ws, -, eq⟩ | ⟨ws, here, eq⟩ := h
    · exact later eq
    · cases ws with
      | nil => exact @later [] eq.symm
      | cons w ws =>
        obtain ⟨rfl, eq⟩ := List.cons.inj eq
        obtain ⟨rfl, start_eq⟩ := eq_nil_of_tokens_eq here visible
        refine ⟨[], piece :: pieces, 0, rfl, ?_, start_eq⟩
        rw [start_eq, allTokens, Nat.add_zero, here, eq]
        rfl

theorem exists_parted_after (h : allTokens position line pieces = us ++ vs)
    (last : t ∈ us.getLast?) (closes : t.kind ≠ .tag) :
    ∃ before others, pieces = before ++ others ∧ allTokens position line before = us ∧
      t.span.stop = position + (before.flatMap text).length := by
  induction pieces generalizing position line us with
  | nil =>
    obtain ⟨rfl, -⟩ := List.append_eq_nil_iff.mp h.symm
    cases last
  | cons piece pieces ih =>
    have here {ws : List Token}
        (eq : piece.tokens position line (piece.isolated pieces) = us ++ ws) :
        ∃ before others, piece :: pieces = before ++ others ∧
          allTokens position line before = us ∧
          t.span.stop = position + (before.flatMap text).length := by
      obtain ⟨tokens_eq, stop_eq⟩ := tokens_nil_of_tokens_eq eq last closes
      refine ⟨[piece], pieces, rfl, ?_, ?_⟩
      · rw [allTokens, allTokens, List.append_nil, tokens_eq]
      · rw [List.flatMap_singleton, stop_eq]
    rw [allTokens, List.append_eq_append_iff] at h
    obtain ⟨ws, rfl, eq⟩ | ⟨ws, eq, -⟩ := h
    · cases ws with
      | nil => exact @here [] (by simp)
      | cons w ws =>
        rw [List.getLast?_append_of_ne_nil _ (List.cons_ne_nil w ws)] at last
        obtain ⟨before, others, rfl, tokens_eq, stop_eq⟩ := ih eq last
        have nonempty : allTokens _ _ before ≠ [] := tokens_eq ▸ List.cons_ne_nil w ws
        have same : piece.tokens position line (piece.isolated before) =
            piece.tokens position line (piece.isolated (before ++ others)) := by
          unfold isolated
          rw [lineEnds_append_of_tokens nonempty]
        refine ⟨piece :: before, others, rfl, ?_, ?_⟩
        · rw [allTokens, tokens_eq, same]
        · simp only [stop_eq, List.flatMap_cons, List.length_append]
          omega
    · exact here eq

end Piece

namespace Token

variable {source : String} {us ts : List Token} {s : Span}

/-- The stretch of a text under a row of its tokens is scanned to this row. -/
theorem exists_excerpt (scanned : scan source = .ok ts) (sub : us <:+: ts)
    (framed : Framed us s) :
    ∃ vs lines, scan (s.excerpt source) = .ok vs ∧
      us = vs.map (·.shift s.start lines) := by
  obtain ⟨pieces, munch, range, rfl⟩ := scan_eq_ok_iff.mp scanned
  obtain ⟨xs, ys, ts_eq⟩ := sub
  obtain ⟨first, first_eq, opens⟩ := framed.opens
  obtain ⟨last, last_eq, closes⟩ := framed.closes
  obtain ⟨us', rfl⟩ := List.head?_eq_some_iff.mp first_eq
  rw [List.append_assoc, List.cons_append] at ts_eq
  obtain ⟨before, others, lines, rfl, others_eq, start_eq⟩ :=
    Piece.exists_parted_before ts_eq.symm opens
  rw [← List.cons_append] at others_eq
  obtain ⟨inside, after, rfl, inside_eq, stop_eq⟩ :=
    Piece.exists_parted_after others_eq last_eq closes
  rw [Nat.zero_add] at start_eq
  have s_eq : s = ⟨(before.flatMap Piece.text).length,
      (before.flatMap Piece.text).length + (inside.flatMap Piece.text).length⟩ := by
    rw [framed.span_eq, extent, first_eq, last_eq, ← start_eq, ← stop_eq]
    rfl
  have row : Piece.Row inside [] :=
    (Piece.row_append.mp (Piece.row_append.mp (munch.row range)).2).1.alone
  refine ⟨Piece.allTokens 0 1 inside, lines, ?_, ?_⟩
  · rw [Span.excerpt, munch.formed.1, List.flatMap_append, List.flatMap_append, s_eq,
      Span.slice_append]
    exact row.scan_eq
  · rw [← inside_eq, ← Piece.allTokens_shift, Nat.zero_add, start_eq, s_eq]

end Token

end TagScript
