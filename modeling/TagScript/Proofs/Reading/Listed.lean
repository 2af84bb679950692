import Mathlib.Data.List.Basic
import TagScript.Proofs.Reading.Declarations
import TagScript.Proofs.Syntax.Occurrences

/-! The lists of a program against its tree. The bindings are collected while the tree is
read and the tags from the tokens alone, yet both can be read off the nodes: the bindings
are the declarations, each listed after those inside it, and the tags are those that
declarations and invocations name, in the order in which the text comes to them. -/
namespace TagScript

def Token.tag? (t : Token) : Option String :=
  if t.kind = .tag then some t.text else none

/-- How many tokens stand before the first one that names the tag. -/
def Token.firstNaming (ts : List Token) (tag : String) : Nat :=
  ts.findIdx (·.tag? = some tag)

namespace Stmt

def tag? : Stmt → Option String
  | declare tag _ _ | invoke tag _ => some tag
  | assign .. | swap .. | ifThen .. | ifElse .. | loop .. | print .. => none

def binding? : Stmt → Option Binding
  | declare tag body _ => some (tag, body)
  | assign .. | invoke .. | swap .. | ifThen .. | ifElse .. | loop .. | print .. => none

mutual

/-- The statements inside a statement, each after those inside it. -/
def insideFirst : Stmt → List Stmt
  | .assign .. | .invoke .. | .swap .. | .print .. => []
  | .declare _ body _ => body.insideFirst ++ [body]
  | .ifThen _ body _ | .loop _ body _ => Stmt.postorder body
  | .ifElse _ body other _ => Stmt.postorder body ++ Stmt.postorder other

def postorder : List Stmt → List Stmt
  | [] => []
  | s :: rest => s.insideFirst ++ s :: Stmt.postorder rest

end

/-! Both orders list the same nodes. -/

mutual

theorem insideFirst_perm (s : Stmt) : s.insideFirst.Perm s.inside := by
  match s with
  | .assign .. | .invoke .. | .swap .. | .print .. => exact .nil
  | .declare _ body _ =>
    simp only [insideFirst, inside]
    apply List.perm_append_comm.trans
    exact (insideFirst_perm body).cons body
  | .ifThen _ body _ | .loop _ body _ =>
    simp only [insideFirst, inside]
    exact postorder_perm body
  | .ifElse _ body other _ =>
    simp only [insideFirst, inside]
    exact (postorder_perm body).append (postorder_perm other)

theorem postorder_perm (body : List Stmt) : (postorder body).Perm (allNodes body) := by
  match body with
  | [] => exact .nil
  | s :: rest =>
    simp only [postorder, allNodes]
    apply List.perm_middle.trans
    apply List.Perm.cons
    exact (insideFirst_perm s).append (postorder_perm rest)

end

/-! What the lists are collected from, read off the nodes. -/

mutual

theorem declarations_eq (s : Stmt) :
    s.declarations = (s.insideFirst ++ [s]).filterMap binding? := by
  match s with
  | .assign .. | .invoke .. | .swap .. | .print .. => rfl
  | .declare _ body _ =>
    simp only [declarations, insideFirst, declarations_eq body, List.filterMap_append]
    rfl
  | .ifThen _ body _ | .loop _ body _ =>
    simp [declarations, insideFirst, allDeclarations_eq body, binding?]
  | .ifElse _ body other _ =>
    simp [declarations, insideFirst, allDeclarations_eq body, allDeclarations_eq other, binding?]

theorem allDeclarations_eq (body : List Stmt) :
    allDeclarations body = (postorder body).filterMap binding? := by
  match body with
  | [] => rfl
  | s :: rest =>
    simp only [allDeclarations, postorder, declarations_eq s, allDeclarations_eq rest,
      ← List.filterMap_append, List.append_assoc, List.singleton_append]

end

mutual

theorem mentions_eq (s : Stmt) : s.mentions = (s :: s.inside).filterMap tag? := by
  match s with
  | .assign .. | .invoke .. | .swap .. | .print .. => rfl
  | .declare tag body _ =>
    simp only [mentions, inside, mentions_eq body]
    rfl
  | .ifThen _ body _ | .loop _ body _ =>
    simp only [mentions, inside, allMentions_eq body]
    rfl
  | .ifElse _ body other _ =>
    simp only [mentions, inside, allMentions_eq body, allMentions_eq other,
      ← List.filterMap_append]
    rfl

theorem allMentions_eq (body : List Stmt) :
    allMentions body = (allNodes body).filterMap tag? := by
  match body with
  | [] => rfl
  | s :: rest =>
    simp only [allMentions, allNodes, mentions_eq s, allMentions_eq rest,
      ← List.filterMap_append, List.cons_append]

end

end Stmt

namespace Reading

section FirstOccurrences

variable {α β : Type} [DecidableEq β] {f : α → Option β} {a : α} {l : List α}

theorem findIdx_cons_of_ne {b : β} (ne : f a ≠ some b) :
    (a :: l).findIdx (f · = some b) = l.findIdx (f · = some b) + 1 := by
  simp [List.findIdx_cons, ne]

theorem pairwise_findIdx_cons {names : List β} (later : ∀ b ∈ names, f a ≠ some b)
    (ordered : names.Pairwise fun b c =>
      l.findIdx (f · = some b) < l.findIdx (f · = some c)) :
    names.Pairwise fun b c =>
      (a :: l).findIdx (f · = some b) < (a :: l).findIdx (f · = some c) := by
  apply ordered.imp_of_mem
  intro b c b_mem c_mem lt
  rw [findIdx_cons_of_ne (later b b_mem), findIdx_cons_of_ne (later c c_mem)]
  omega

/-- Of what is collected from a list, that is kept which has not been seen before. It stands in
the order in which it occurs first. -/
theorem pairwise_findIdx_of_eraseDups (f : α → Option β) (l : List α) (seen : List β) :
    ((l.filterMap f).filter (· ∉ seen)).eraseDups.Pairwise fun b c =>
      l.findIdx (f · = some b) < l.findIdx (f · = some c) := by
  induction l generalizing seen with
  | nil => simp
  | cons a l ih =>
    have known (seen : List β) (first : ∀ b, f a = some b → b ∈ seen) :
        ∀ b ∈ ((l.filterMap f).filter (· ∉ seen)).eraseDups, f a ≠ some b := by
      intro b mem same
      simp [first b same] at mem
    cases found : f a with
    | none =>
      have nothing := known seen (by simp [found])
      simpa [found] using pairwise_findIdx_cons nothing (ih seen)
    | some b =>
      by_cases old : b ∈ seen
      case pos =>
        have seen_before := known seen (by simpa [found] using old)
        simpa [found, old] using pairwise_findIdx_cons seen_before (ih seen)
      case neg =>
        have rest : ((l.filterMap f).filter (· ∉ seen)).filter (fun c => !c == b) =
            (l.filterMap f).filter (· ∉ b :: seen) := by
          rw [List.filter_filter]
          apply List.filter_congr
          simp [beq_eq_decide]
        have others := known (b :: seen) (by simp [found])
        rw [List.filterMap_cons_some found, List.filter_cons_of_pos (by simpa using old),
          List.eraseDups_cons, rest, List.pairwise_cons]
        refine ⟨fun c mem => ?_, pairwise_findIdx_cons others (ih (b :: seen))⟩
        rw [findIdx_cons_of_ne (others c mem), List.findIdx_cons, found]
        simp

end FirstOccurrences

theorem tagTexts_lexemes (ts : List Token) :
    Grammar.tagTexts (Token.lexemes ts) = ts.filterMap Token.tag? := by
  unfold Grammar.tagTexts Token.lexemes
  induction ts with
  | nil => rfl
  | cons t ts ih => by_cases h : t.kind = .tag <;> simp [Token.tag?, h, ih]

/-- The tokens name the tags that the nodes of the tree name, in the same order. -/
theorem filterMap_tag_of_read {ts : List Token} {body : List Stmt}
    (read : (statementList ts).result = .ok body) :
    ts.filterMap Token.tag? = (Stmt.allNodes body).filterMap Stmt.tag? := by
  rw [← tagTexts_lexemes, Grammar.tagTexts_of_statements (statements_of_read read), Stmt.eraseAll,
    Stmt.allMentions_mapAllSpans, Stmt.allMentions_eq]

end Reading

namespace Program

/-- The bindings of a program that was read are the declarations among the nodes of its tree,
none left out and none twice, each after those inside it. Its tags are those that declarations
and invocations among the nodes name, each once, in the order in which tokens name them first;
and the tokens name tags just where nodes of the tree do. -/
theorem lists_of_tree {ts : List Token} {p : Program} (read : ofTokens ts = .ok p) :
    p.bindings = (Stmt.postorder p.statements).filterMap Stmt.binding? ∧
    (Stmt.postorder p.statements).Perm (Stmt.allNodes p.statements) ∧
    (∀ tag, tag ∈ p.tags ↔ ∃ s ∈ Stmt.allNodes p.statements, s.tag? = some tag) ∧
    p.tags.Pairwise (fun tag other => Token.firstNaming ts tag < Token.firstNaming ts other) ∧
    ts.filterMap Token.tag? = (Stmt.allNodes p.statements).filterMap Stmt.tag? := by
  obtain ⟨statements, tags_eq, bindings_eq⟩ := ofTokens_eq_ok_iff.mp read
  have named := Reading.filterMap_tag_of_read statements
  rw [Grammar.tagNames_eq, Reading.tagTexts_lexemes] at tags_eq
  refine ⟨?_, Stmt.postorder_perm p.statements, fun tag => ?_, ?_, named⟩
  · rw [bindings_eq, Reading.bindings_of_read statements, Stmt.allDeclarations_eq]
  · rw [tags_eq, List.mem_eraseDups, named, List.mem_filterMap]
  · have ordered := Reading.pairwise_findIdx_of_eraseDups Token.tag? ts []
    simp only [List.not_mem_nil, not_false_eq_true, decide_true, List.filter_true] at ordered
    rw [tags_eq]
    exact ordered

/-- A declaration in a block of a declared body, and one of the same tag inside that: the
innermost is bound first, and what is named again is not listed again. -/
theorem lists_of_tree_nested :
    ∃ (ts : List Token) (p : Program), ofTokens ts = .ok p ∧
      p.bindings.map (·.1) = ["a", "b", "a"] ∧ p.tags = ["a", "b", "c"] ∧
      p.bindings = (Stmt.postorder p.statements).filterMap Stmt.binding? ∧
      (∃ s ∈ Stmt.allNodes p.statements, s.tag? = some "c") ∧
      Token.firstNaming ts "b" < Token.firstNaming ts "c" := by
  let ts : List Token :=
    [⟨⟨.tag, "a"⟩, ⟨0, 2⟩, 1⟩, ⟨⟨.ifWord, "IF"⟩, ⟨3, 5⟩, 1⟩, ⟨⟨.identifier, "x"⟩, ⟨6, 7⟩, 1⟩,
      ⟨⟨.leftBrace, "\x7b"⟩, ⟨8, 9⟩, 1⟩, ⟨⟨.tag, "b"⟩, ⟨10, 12⟩, 1⟩, ⟨⟨.tag, "a"⟩, ⟨13, 15⟩, 1⟩,
      ⟨⟨.printWord, "PRINT"⟩, ⟨16, 21⟩, 1⟩, ⟨⟨.identifier, "y"⟩, ⟨22, 23⟩, 1⟩,
      ⟨⟨.rightBrace, "\x7d"⟩, ⟨24, 25⟩, 1⟩, ⟨⟨.elseWord, "ELSE"⟩, ⟨26, 30⟩, 1⟩,
      ⟨⟨.leftBrace, "\x7b"⟩, ⟨31, 32⟩, 1⟩, ⟨⟨.tag, "c"⟩, ⟨33, 35⟩, 1⟩, ⟨⟨.empty, ""⟩, ⟨35, 35⟩, 1⟩,
      ⟨⟨.rightBrace, "\x7d"⟩, ⟨36, 37⟩, 1⟩]
  let shown : Stmt := .print (.named "y" ⟨22, 23⟩) ⟨16, 23⟩
  let inner : Stmt := .declare "a" shown ⟨13, 23⟩
  let outer : Stmt := .ifElse (.named "x" ⟨6, 7⟩) [.declare "b" inner ⟨10, 23⟩]
    [.invoke "c" ⟨33, 35⟩] ⟨3, 37⟩
  let p : Program := ⟨[.declare "a" outer ⟨0, 37⟩], ["a", "b", "c"],
    [("a", shown), ("b", inner), ("a", outer)]⟩
  have read : ofTokens ts = .ok p := by cbv
  obtain ⟨bindings, -, mem_tags, ordered, -⟩ := lists_of_tree read
  have order : Token.firstNaming ts "b" < Token.firstNaming ts "c" := by
    simp only [p, List.pairwise_cons] at ordered
    exact ordered.2.1 "c" List.mem_cons_self
  exact ⟨ts, p, read, rfl, rfl, bindings, (mem_tags "c").mp (by decide), order⟩

end Program

end TagScript
