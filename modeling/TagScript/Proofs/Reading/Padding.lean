import TagScript.Proofs.Reading.RoundTrip
import TagScript.Proofs.Token.Padding

/-! Reading a text with more layout in it. The reader goes by the lexemes of the tokens, so the
program is the same up to where its parts stand. -/
namespace TagScript.Program

open Grammar Reading Token

variable {source : String} {ts us : List Token} {position : Nat} {text : List Char} {p : Program}

theorem exists_of_lexemes_eq (same : lexemes us = lexemes ts) (read : ofTokens ts = .ok p) :
    ∃ q, ofTokens us = .ok q ∧ q.erase = p.erase := by
  have phrase := statements_of_read (ofTokens_eq_ok_iff.mp read).1
  rw [← same] at phrase
  obtain ⟨body, read', erase_eq⟩ := read_of_statements phrase
  have accepted : ofTokens us = .ok ⟨body, tagNames us, (statementList us).bindings⟩ :=
    ofTokens_eq_ok_iff.mpr ⟨read', rfl, rfl⟩
  refine ⟨_, accepted, ?_⟩
  rw [erase_of_ofTokens accepted, erase_of_ofTokens read, erase_eq]

/-- The lexemes decide whether there is a program, and which one up to spans. -/
theorem erase_ofTokens_of_lexemes_eq (same : lexemes us = lexemes ts) :
    (ofTokens us).toOption.map erase = (ofTokens ts).toOption.map erase := by
  cases read : ofTokens ts with
  | ok p =>
    obtain ⟨q, read', erase_eq⟩ := exists_of_lexemes_eq same read
    rw [read']
    exact congrArg some erase_eq
  | error f =>
    cases read' : ofTokens us with
    | ok q =>
      obtain ⟨p, accepted, -⟩ := exists_of_lexemes_eq same.symm read'
      cases read.symm.trans accepted
    | error f' => rfl

theorem toOption_ofSource (scanned : scan source = .ok ts) :
    (ofSource source).toOption.map (·.2) = (ofTokens ts).toOption := by
  rw [ofSource, scanned]
  dsimp only
  cases ofTokens ts <;> rfl

/-- Layout put into a text changes neither the lexemes nor the lines of its tokens, the empty ones
included. The visible tokens behind it move by its length and the others stay, each empty
token stands at the end of its tag, and the text is the same program up to spans. -/
theorem ofSource_insertAt (scanned : scan source = .ok ts)
    (padding : Padding source ts position text) :
    ∃ ts', scan (insertAt source position text) = .ok ts' ∧
      ts'.map (fun t => (t.toLexeme, t.line)) = ts.map (fun t => (t.toLexeme, t.line)) ∧
      visible ts' = (visible ts).map (·.makeRoom position text.length) ∧
      EndsTags ts' ∧
      (ofSource (insertAt source position text)).toOption.map (·.2.erase) =
        (ofSource source).toOption.map (·.2.erase) := by
  obtain ⟨ts', scanned', same, visible_eq, ends⟩ := padding.exists_scan scanned
  have lexemes_eq : lexemes ts' = lexemes ts := by
    have firsts := congrArg (List.map Prod.fst) same
    rwa [List.map_map, List.map_map] at firsts
  have programs := erase_ofTokens_of_lexemes_eq lexemes_eq
  rw [← toOption_ofSource scanned', ← toOption_ofSource scanned, Option.map_map,
    Option.map_map] at programs
  exact ⟨ts', scanned', same, visible_eq, ends, programs⟩

/-- A tab and a space between a tag and the comment that touches it. -/
theorem ofSource_insertAt_before_comment :
    ∃ ts, scan "@a--b" = .ok ts ∧ Padding "@a--b" ts 2 ['\t', ' '] ∧
      ∃ ts', scan (insertAt "@a--b" 2 ['\t', ' ']) = .ok ts' ∧
        ts'.map (fun t => (t.toLexeme, t.line)) = ts.map (fun t => (t.toLexeme, t.line)) ∧
        visible ts' = (visible ts).map (·.makeRoom 2 2) ∧ EndsTags ts' ∧
        (ofSource (insertAt "@a--b" 2 ['\t', ' '])).toOption.map (·.2.erase) =
          (ofSource "@a--b").toOption.map (·.2.erase) := by
  have scanned : scan "@a--b" =
      .ok [⟨⟨.tag, "a"⟩, ⟨0, 2⟩, 1⟩, ⟨⟨.empty, ""⟩, ⟨2, 2⟩, 1⟩] := by cbv
  have padding : Padding "@a--b" [⟨⟨.tag, "a"⟩, ⟨0, 2⟩, 1⟩, ⟨⟨.empty, ""⟩, ⟨2, 2⟩, 1⟩] 2
      ['\t', ' '] := by
    have mem : (⟨⟨.tag, "a"⟩, ⟨0, 2⟩, 1⟩ : Token) ∈
        visible [⟨⟨.tag, "a"⟩, ⟨0, 2⟩, 1⟩, ⟨⟨.empty, ""⟩, ⟨2, 2⟩, 1⟩] := by decide
    exact .blanks mem (.inr rfl) (by simp)
  exact ⟨_, scanned, padding, ofSource_insertAt scanned padding⟩

end TagScript.Program
