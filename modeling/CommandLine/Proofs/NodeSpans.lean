import Mathlib.Control.Monad.Basic
import CommandLine.Proofs.LexicalGrammar
import CommandLine.Proofs.Yield
import CommandLine.Tree.Node
/-!
# CommandLine.Proofs.NodeSpans

**A node covers the line from its first leaf to its last one.** The span of a node is put together
from those of the nodes below it, in another way for each kind of node and with something to fall
back on where a list is empty. All these ways come to the same (`Tree.Node.span?_eq_extent?`): the
span is the extent of the leaves below the node, and a node has none if it has no leaves.

The leaves of a tree are the words and texts of its line (`Tree.Yields.filter_eq_leaves`), so they
stand from left to right. What is below a node has some of its leaves, in the same order. So the
spans of nodes are nested as the nodes are (`Tree.nodes_cover_line`).
-/

namespace CommandLine

namespace Token

variable {ts us : List Token} {span inner : Span}

/-! ### Extents -/

/-- From the start of the first token to the end of the last one. -/
def extent? (ts : List Token) : Option Span := do
  return Tree.hull (← ts.head?).span (← ts.getLast?).span

theorem extent?_eq_some_iff :
    extent? ts = some span ↔ ∃ first last, ts.head? = some first ∧ ts.getLast? = some last
      ∧ span = ⟨first.span.start, last.span.stop⟩ := by
  unfold extent?
  cases ts.head? <;> cases ts.getLast? <;> simp [Tree.hull, eq_comm]

theorem extent?_eq_none_iff : extent? ts = none ↔ ts = [] := by
  cases ts with
  | nil => exact ⟨fun _ => rfl, fun _ => rfl⟩
  | cons t ts => simp [extent?, List.getLast?_cons]

theorem extent?_cons (t : Token) (ts : List Token) :
    extent? (t :: ts) = some (Tree.hull t.span ((extent? ts).getD t.span)) := by
  unfold extent?
  rw [List.getLast?_cons]
  cases ts with
  | nil => rfl
  | cons u us =>
    rw [List.getLast?_cons]
    rfl

theorem stop_extent? (ts : List Token) (span : Span) :
    ((extent? ts).getD span).stop = (ts.getLast?.map (·.span.stop)).getD span.stop := by
  cases ts with
  | nil => rfl
  | cons t ts => simp [extent?, List.getLast?_cons, Tree.hull]

/-- Where tokens end that come in two parts. -/
theorem stop_extent?_append (ts us : List Token) (span : Span) :
    ((extent? (ts ++ us)).getD span).stop = ((extent? us).or (extent? ts) |>.getD span).stop := by
  cases us with
  | nil => simp [extent?]
  | cons u us =>
    have hor : (extent? (u :: us)).or (extent? ts) = extent? (u :: us) := by
      rw [extent?_cons, Option.some_or]
    rw [hor, stop_extent?, stop_extent?, List.getLast?_append, List.getLast?_cons, Option.some_or]

/-- Tokens that are not empty, each behind the one before it. -/
structure LeftToRight (ts : List Token) : Prop where
  start_lt_stop : ∀ t ∈ ts, t.span.start < t.span.stop
  ordered : ts.Pairwise (·.span.stop ≤ ·.span.start)

theorem LeftToRight.sublist (h : LeftToRight ts) (hus : us.Sublist ts) : LeftToRight us where
  start_lt_stop := fun t ht => h.start_lt_stop t (hus.subset ht)
  ordered := h.ordered.sublist hus

/-- No token reaches out of the extent of all. -/
theorem LeftToRight.inside (h : LeftToRight ts) (hspan : extent? ts = some span) {t : Token}
    (ht : t ∈ ts) : span.start ≤ t.span.start ∧ t.span.stop ≤ span.stop := by
  obtain ⟨first, last, hfirst, hlast, rfl⟩ := extent?_eq_some_iff.1 hspan
  have hlt := h.start_lt_stop t ht
  constructor
  · obtain ⟨rest, rfl⟩ := List.head?_eq_some_iff.1 hfirst
    rcases List.mem_cons.1 ht with rfl | ht
    · exact Nat.le_refl _
    · have := List.rel_of_pairwise_cons h.ordered ht
      have := h.start_lt_stop first List.mem_cons_self
      dsimp only
      omega
  · obtain ⟨rest, rfl⟩ := List.getLast?_eq_some_iff.1 hlast
    rcases List.mem_append.1 ht with ht | ht
    · have := (List.pairwise_append.1 h.ordered).2.2 t ht last List.mem_cons_self
      have := h.start_lt_stop last (by simp)
      dsimp only
      omega
    · obtain rfl := List.mem_singleton.1 ht
      exact Nat.le_refl _

/-- The extent is not empty. -/
theorem LeftToRight.extent_lt (h : LeftToRight ts) (hspan : extent? ts = some span) :
    span.start < span.stop := by
  obtain ⟨first, last, hfirst, -, -⟩ := extent?_eq_some_iff.1 hspan
  have hmem := List.mem_of_head? hfirst
  have hinside := h.inside hspan hmem
  have hlt := h.start_lt_stop first hmem
  omega

/-- Some of the tokens do not reach further than all. -/
theorem LeftToRight.exists_extent (h : LeftToRight ts) (hus : us.Sublist ts)
    (hinner : extent? us = some inner) :
    ∃ outer, extent? ts = some outer ∧ outer.start ≤ inner.start ∧ inner.stop ≤ outer.stop := by
  obtain ⟨first, last, hfirst, hlast, rfl⟩ := extent?_eq_some_iff.1 hinner
  have hfirst' := hus.subset (List.mem_of_head? hfirst)
  have hlast' := hus.subset (List.mem_of_getLast? hlast)
  cases houter : extent? ts with
  | none =>
    rw [extent?_eq_none_iff.1 houter] at hfirst'
    cases hfirst'
  | some outer =>
    exact ⟨outer, rfl, (h.inside houter hfirst').1, (h.inside houter hlast').2⟩

end Token

namespace Tree

open Token (extent? LeftToRight)

/-! ### The leaves below a node -/

/-- The name of an option and its value. -/
def NamedOption.leaves (o : NamedOption) : List Token := o.name :: o.value.toList

/-- The words and texts of a tree, in the order of the line. -/
def leaves (t : Tree) : List Token :=
  t.imperative :: (t.parameters.map (·.text) ++ t.options.flatMap NamedOption.leaves)

namespace Node

/-- The token of a leaf. -/
def leaf? : Node → Option Token
  | text leaf | word leaf => some leaf
  | _ => none

/-- The nodes right below a node, from left to right. -/
def children : Node → List Node
  | command t => [.imperative t.imperative, .parameterList t.parameters, .optionList t.options]
  | imperative leaf | optionName leaf => [.word leaf]
  | parameterList ps => ps.map .parameter
  | parameter p => [.text p.text]
  | optionList os => os.map .option
  | option o => .optionName o.name :: (o.value.map .optionValue).toList
  | optionValue leaf => [.text leaf]
  | text _ | word _ => []

/-- The words and texts below a node, from left to right. -/
def leaves : Node → List Token
  | command t => t.leaves
  | parameterList ps => ps.map (·.text)
  | parameter p => [p.text]
  | optionList os => os.flatMap NamedOption.leaves
  | option o => o.leaves
  | imperative leaf | optionName leaf | optionValue leaf | text leaf | word leaf => [leaf]

/-- A node and what is below it, down to some depth: each before the nodes below it, these from
left to right. -/
def walk : Nat → Node → List Node
  | 0, n => [n]
  | depth + 1, n => n :: n.children.flatMap (walk depth)

variable {n m child : Node} {depth : Nat}

/-- What is below a node is below its children, or is the node. -/
theorem leaves_eq (n : Node) : n.leaves = n.leaf?.toList ++ n.children.flatMap leaves := by
  cases n with
  | command t => simp [leaves, Tree.leaves, leaf?, children]
  | parameterList ps =>
    simp only [leaves, leaf?, children, Option.toList_none, List.nil_append, List.flatMap_map]
    exact List.map_eq_flatMap
  | optionList os => simp [leaves, leaf?, children, List.flatMap_map]
  | option o =>
    cases hvalue : o.value <;> simp [leaves, NamedOption.leaves, leaf?, children, hvalue]
  | _ => rfl

theorem leaves_sublist_of_child (h : child ∈ n.children) : child.leaves.Sublist n.leaves := by
  rw [leaves_eq n]
  have hchild : child.leaves.Sublist (n.children.flatMap leaves) := by
    rw [List.flatMap_def]
    exact List.sublist_flatten_of_mem (List.mem_map_of_mem h)
  exact hchild.trans (List.sublist_append_right _ _)

/-- Only an empty list has no leaves. -/
theorem leaves_eq_nil_iff : n.leaves = [] ↔ n = .parameterList [] ∨ n = .optionList [] := by
  cases n with
  | optionList os => cases os <;> simp [leaves, NamedOption.leaves]
  | _ => simp [leaves, Tree.leaves, NamedOption.leaves]

/-! ### Going down -/

theorem leaves_sublist_of_walk (h : n ∈ m.walk depth) : n.leaves.Sublist m.leaves := by
  induction depth generalizing m with
  | zero =>
    obtain rfl := List.mem_singleton.1 h
    exact List.Sublist.refl _
  | succ depth ih =>
    rcases List.mem_cons.1 h with rfl | h
    · exact List.Sublist.refl _
    · obtain ⟨child, hchild, hn⟩ := List.mem_flatMap.1 h
      exact (ih hn).trans (leaves_sublist_of_child hchild)

theorem child_mem_walk (h : n ∈ m.walk depth) (hchild : child ∈ n.children) :
    child ∈ m.walk (depth + 1) := by
  induction depth generalizing m with
  | zero =>
    rw [List.mem_singleton.1 h] at hchild
    exact List.mem_cons_of_mem _ (List.mem_flatMap.2 ⟨child, hchild, List.mem_singleton_self _⟩)
  | succ depth ih =>
    rcases List.mem_cons.1 h with rfl | h
    · refine List.mem_cons_of_mem _ (List.mem_flatMap.2 ⟨child, hchild, ?_⟩)
      exact List.mem_cons_self
    · obtain ⟨between, hbetween, hn⟩ := List.mem_flatMap.1 h
      exact List.mem_cons_of_mem _ (List.mem_flatMap.2 ⟨between, hbetween, ih hn⟩)

theorem walk_parameter (p : Parameter) (depth : Nat) :
    (parameter p).walk (depth + 1) = p.nodes := by
  cases depth <;> rfl

theorem walk_parameterList (ps : List Parameter) (depth : Nat) :
    (parameterList ps).walk (depth + 2) = .parameterList ps :: ps.flatMap Parameter.nodes := by
  rw [walk, children, List.flatMap_map]
  simp only [walk_parameter]

theorem walk_option (o : NamedOption) (depth : Nat) :
    (option o).walk (depth + 2) = o.nodes := by
  obtain ⟨name, value⟩ := o
  cases value <;> cases depth <;> rfl

theorem walk_optionList (os : List NamedOption) (depth : Nat) :
    (optionList os).walk (depth + 3) = .optionList os :: os.flatMap NamedOption.nodes := by
  rw [walk, children, List.flatMap_map]
  simp only [walk_option]

end Node

/-- The nodes of a tree are what is below its root, and there is nothing deeper down. -/
theorem nodes_eq_walk (t : Tree) (depth : Nat) : t.nodes = (Node.command t).walk (depth + 4) := by
  have himperative : (Node.imperative t.imperative).walk (depth + 3)
      = [.imperative t.imperative, .word t.imperative] := rfl
  rw [Node.walk, Node.children]
  simp only [List.flatMap_cons, List.flatMap_nil, List.append_nil, himperative,
    Node.walk_parameterList, Node.walk_optionList]
  simp [nodes]

theorem filterMap_leaf?_nodes (t : Tree) : t.nodes.filterMap Node.leaf? = t.leaves := by
  have hparameter (p : Parameter) : p.nodes.filterMap Node.leaf? = [p.text] := rfl
  have hoption (o : NamedOption) : o.nodes.filterMap Node.leaf? = o.leaves := by
    obtain ⟨name, value⟩ := o
    cases value <;> rfl
  simp only [nodes, leaves, List.filterMap_append, List.filterMap_cons,
    List.filterMap_flatMap, Node.leaf?, hparameter, hoption, List.map_eq_flatMap, List.cons_append,
    List.nil_append]

/-! ### Spans and leaves -/

theorem head?_leaves (os : List NamedOption) :
    (os.flatMap NamedOption.leaves).head? = os.head?.map (·.name) := by
  cases os <;> rfl

theorem getLast?_leaves (os : List NamedOption) :
    (os.flatMap NamedOption.leaves).getLast? = os.getLast?.map fun o => o.value.getD o.name := by
  rcases List.eq_nil_or_concat os with rfl | ⟨front, o, rfl⟩
  · rfl
  · cases hvalue : o.value <;> simp [NamedOption.leaves, hvalue]

theorem parametersSpan?_eq (ps : List Parameter) :
    parametersSpan? ps = extent? (ps.map (·.text)) := by
  unfold parametersSpan? extent?
  rw [List.head?_map, List.getLast?_map]
  cases ps.head? <;> cases ps.getLast? <;> rfl

theorem optionsSpan?_eq (os : List NamedOption) :
    optionsSpan? os = extent? (os.flatMap NamedOption.leaves) := by
  unfold optionsSpan? extent?
  rw [head?_leaves, getLast?_leaves]
  cases os.head? <;> cases os.getLast? <;> rfl

/-- A tree without options ends with its parameters, and one without either with its
imperative. -/
theorem span_eq (t : Tree) : some t.span = extent? t.leaves := by
  rw [leaves, Token.extent?_cons, span, optionsSpan?_eq, parametersSpan?_eq, hull, hull,
    Token.stop_extent?_append]

/-- A node covers the line from its first leaf to its last one. -/
theorem Node.span?_eq_extent? (n : Node) : n.span? = extent? n.leaves := by
  cases n with
  | command t => exact t.span_eq
  | parameterList ps => exact parametersSpan?_eq ps
  | optionList os => exact optionsSpan?_eq os
  | option o =>
    obtain ⟨name, value⟩ := o
    cases value <;> rfl
  | _ => rfl

/-! ### The leaves of a line -/

theorem not_isValue {t : Token} {k : Token.Kind} (hkind : t.kind = k)
    (hk : k ≠ .text ∧ k ≠ .word) : ¬t.IsValue := by
  rw [Token.IsValue, hkind]
  exact not_or.2 hk

theorem Parameter.Yields.filter_eq {p : Parameter} {ts : List Token} (h : p.Yields ts) :
    ts.filter (·.IsValue) = [p.text] := by
  cases h with
  | normal htext => simp [htext]
  | @additive plus text hplus htext =>
    have hmark : ¬plus.IsValue := not_isValue hplus (by decide)
    simp [hmark, htext]
  | @subtractive minus text hminus htext =>
    have hmark : ¬minus.IsValue := not_isValue hminus (by decide)
    simp [hmark, htext]

theorem NamedOption.Yields.filter_eq {o : NamedOption} {ts : List Token} (h : o.Yields ts) :
    ts.filter (·.IsValue) = o.leaves := by
  cases h with
  | @flag slash name hslash hname =>
    have hmark : ¬slash.IsValue := not_isValue hslash (by decide)
    have hname' : name.IsValue := .inr hname
    simp [leaves, hmark, hname']
  | @valued slash name colon value hslash hname hcolon hvalue =>
    have hmark : ¬slash.IsValue := not_isValue hslash (by decide)
    have hname' : name.IsValue := .inr hname
    have hcolon' : ¬colon.IsValue := not_isValue hcolon (by decide)
    simp [leaves, hmark, hname', hcolon', hvalue]

theorem ListYields.filter_eq {α : Type} {yields : α → List Token → Prop} {g : α → List Token}
    {as : List α} {ts : List Token} (hg : ∀ a us, yields a us → us.filter (·.IsValue) = g a)
    (h : ListYields yields as ts) : ts.filter (·.IsValue) = as.flatMap g := by
  induction h with
  | nil => rfl
  | cons ha _ ih => rw [List.filter_append, List.flatMap_cons, hg _ _ ha, ih]

/-- The leaves of a tree are all words and texts of its line. -/
theorem Yields.filter_eq_leaves {t : Tree} {ts : List Token} (h : t.Yields ts) :
    ts.filter (·.IsValue) = t.leaves := by
  cases h with
  | @command imperative terminal parameters options ps os hword hparameters hoptions hterminal =>
    have hps := hparameters.filter_eq fun _ _ h => h.filter_eq
    have hos := hoptions.filter_eq fun _ _ h => h.filter_eq
    have himperative : imperative.IsValue := .inr hword
    have hend : ¬terminal.IsValue := not_isValue hterminal (by decide)
    simp [leaves, hps, hos, himperative, hend, List.map_eq_flatMap]

/-- The leaves of a line's tree stand from left to right, within the line. -/
theorem leftToRight_leaves {line : String} {s : TokenStream} {t : Tree}
    (hs : tokenize line = .ok s) (ht : ofStream s = .ok t) :
    LeftToRight t.leaves ∧ ∀ leaf ∈ t.leaves, leaf.span.stop ≤ line.utf8ByteSize := by
  have hleaves := (ofStream_eq_ok.1 ht).filter_eq_leaves
  have hbody (leaf : Token) (hleaf : leaf ∈ t.leaves) : leaf ∈ s.body := by
    rw [← hleaves, List.mem_filter, decide_eq_true_iff] at hleaf
    rcases List.mem_append.1 hleaf.1 with hmem | hmem
    · exact hmem
    · rw [List.mem_singleton.1 hmem] at hleaf
      exact absurd hleaf.2 (not_isValue s.terminal_kind (by decide))
  refine ⟨⟨fun leaf hleaf => (TokenStream.span_of_mem_body hs (hbody leaf hleaf)).1, ?_⟩,
    fun leaf hleaf => (TokenStream.span_of_mem_body hs (hbody leaf hleaf)).2⟩
  rw [← hleaves]
  exact (TokenStream.ordered hs).sublist List.filter_sublist

/-- **The nodes of a tree cover its line as they are nested.** The nodes are all that is below the
root, however deep one goes. Their leaves are the words and texts of the line, each of them once
and in its order, from left to right. A node has no span just if it is an empty list; otherwise
the span is not empty, lies within the line, and is made of offsets that are in order. What is
right below a node lies inside of it, and the root goes from the first leaf to the last one. -/
theorem nodes_cover_line {line : String} {s : TokenStream} {t : Tree}
    (hs : tokenize line = .ok s) (ht : ofStream s = .ok t) :
    (∀ depth, t.nodes = (Node.command t).walk (depth + 4))
      ∧ t.nodes.filterMap Node.leaf? = s.tokens.filter (·.IsValue)
      ∧ (t.nodes.filterMap Node.leaf?).Pairwise (·.span.stop ≤ ·.span.start)
      ∧ (∀ n ∈ t.nodes, (n.span? = none ↔ n = .parameterList [] ∨ n = .optionList [])
        ∧ ∀ span, n.span? = some span → span.start < span.stop ∧ span.stop ≤ line.utf8ByteSize
          ∧ Span.between? span.start span.stop = .ok span)
      ∧ (∀ n ∈ t.nodes, ∀ child ∈ n.children, child ∈ t.nodes
        ∧ ∀ inner, child.span? = some inner → ∃ outer, n.span? = some outer
          ∧ outer.start ≤ inner.start ∧ inner.stop ≤ outer.stop)
      ∧ ∃ first last, (t.nodes.filterMap Node.leaf?).head? = some first
        ∧ (t.nodes.filterMap Node.leaf?).getLast? = some last
        ∧ (Node.command t).span? = some ⟨first.span.start, last.span.stop⟩ := by
  obtain ⟨hleft, hinside⟩ := leftToRight_leaves hs ht
  have hsublist (n : Node) (hn : n ∈ t.nodes) : n.leaves.Sublist t.leaves := by
    rw [nodes_eq_walk t 0] at hn
    exact Node.leaves_sublist_of_walk hn
  rw [filterMap_leaf?_nodes]
  refine ⟨nodes_eq_walk t, (ofStream_eq_ok.1 ht).filter_eq_leaves.symm, hleft.ordered,
    fun n hn => ⟨?_, fun span hspan => ?_⟩,
    fun n hn child hchild => ⟨?_, fun inner hinner => ?_⟩, ?_⟩
  · rw [Node.span?_eq_extent?, Token.extent?_eq_none_iff, Node.leaves_eq_nil_iff]
  · rw [Node.span?_eq_extent?] at hspan
    have hlt := (hleft.sublist (hsublist n hn)).extent_lt hspan
    obtain ⟨first, last, -, hlast, rfl⟩ := Token.extent?_eq_some_iff.1 hspan
    refine ⟨hlt, hinside last ((hsublist n hn).subset (List.mem_of_getLast? hlast)), ?_⟩
    rw [Span.between?, if_neg (Nat.not_lt_of_lt hlt)]
  · rw [nodes_eq_walk t 0] at hn
    rw [nodes_eq_walk t 1]
    exact Node.child_mem_walk hn hchild
  · rw [Node.span?_eq_extent?] at hinner ⊢
    exact (hleft.sublist (hsublist n hn)).exists_extent (Node.leaves_sublist_of_child hchild) hinner
  · have hroot : (Node.command t).span? = extent? t.leaves := Node.span?_eq_extent? _
    obtain ⟨span, hspan⟩ := Option.isSome_iff_exists.1 (show (extent? t.leaves).isSome from rfl)
    obtain ⟨first, last, hfirst, hlast, rfl⟩ := Token.extent?_eq_some_iff.1 hspan
    exact ⟨first, last, hfirst, hlast, hroot.trans hspan⟩

/-- The tokens of `tag +"é" /xy`. -/
def flagBehindText : TokenStream where
  line := "tag +\"é\" /xy"
  body := [⟨.word, "tag", ⟨0, 3⟩⟩, ⟨.plus, "+", ⟨4, 5⟩⟩, ⟨.text, "é", ⟨5, 9⟩⟩,
    ⟨.slash, "/", ⟨10, 11⟩⟩, ⟨.word, "xy", ⟨11, 13⟩⟩]
  terminal := ⟨.terminal, "", .empty 13⟩
  body_kind := by decide
  terminal_kind := rfl

/-- The tree of `tag +"é" /xy`. -/
def flagBehindTextTree : Tree where
  imperative := ⟨.word, "tag", ⟨0, 3⟩⟩
  parameters := [⟨.additive, ⟨.text, "é", ⟨5, 9⟩⟩⟩]
  options := [⟨⟨.word, "xy", ⟨11, 13⟩⟩, none⟩]

/-- The mark and the slash belong to no leaf, so the parameter begins behind its mark and the
options behind their slash; the quotes belong to their text. -/
theorem nodes_of_flagBehindText :
    tokenize "tag +\"é\" /xy" = .ok flagBehindText
      ∧ ofStream flagBehindText = .ok flagBehindTextTree
      ∧ flagBehindTextTree.nodes.filterMap Node.leaf?
        = [⟨.word, "tag", ⟨0, 3⟩⟩, ⟨.text, "é", ⟨5, 9⟩⟩, ⟨.word, "xy", ⟨11, 13⟩⟩]
      ∧ (Node.command flagBehindTextTree).span? = some ⟨0, 13⟩
      ∧ ∃ outer, (Node.optionList flagBehindTextTree.options).span? = some outer
        ∧ outer.start ≤ 11 ∧ 13 ≤ outer.stop := by
  have hs : tokenize "tag +\"é\" /xy" = .ok flagBehindText := by decide +kernel
  have ht : ofStream flagBehindText = .ok flagBehindTextTree := by decide +kernel
  obtain ⟨-, hleaves, -, -, hnested, first, last, hfirst, hlast, hroot⟩ := nodes_cover_line hs ht
  have hvalues : flagBehindText.tokens.filter (·.IsValue)
      = [⟨.word, "tag", ⟨0, 3⟩⟩, ⟨.text, "é", ⟨5, 9⟩⟩, ⟨.word, "xy", ⟨11, 13⟩⟩] := by decide
  rw [hvalues] at hleaves
  rw [hleaves] at hfirst hlast
  cases hfirst
  cases hlast
  have hoption := hnested (.optionList flagBehindTextTree.options) (by decide)
    (.option ⟨⟨.word, "xy", ⟨11, 13⟩⟩, none⟩) (by decide)
  exact ⟨hs, ht, hleaves, hroot, hoption.2 ⟨11, 13⟩ rfl⟩

end Tree

end CommandLine
