/-
  Parse trees.

  The leaves of a tree are terminals with their attributes, its other nodes are rules with a tree for
  each symbol of the right-hand side.  Every sentence is spelled by the leaves of a tree
  (`IsSentence.exists_tree`): a derivation is read backwards, and each of its steps puts a row of trees
  together to one (`exists_forest`).
-/
import GuardedGrammar.Attributes
import GuardedGrammar.Proofs.Derivation

namespace GuardedGrammar

/-- A terminal, or a rule with what its right-hand side has been derived to. -/
inductive ParseTree where
  | leaf (t : Terminal)
  | node (rule : Rule) (children : List ParseTree)

namespace ParseTree

/-- The symbol that the tree is derived from. -/
def symbol : ParseTree → String
  | leaf t => t.name
  | node rule _ => rule.lhs.name

mutual

/-- The terminals of a tree, from left to right. -/
def leaves : ParseTree → List Terminal
  | leaf t => [t]
  | node _ children => leavesAll children

/-- The terminals of trees, one after the other. -/
def leavesAll : List ParseTree → List Terminal
  | [] => []
  | tree :: trees => tree.leaves ++ leavesAll trees

end

theorem leaves_node (rule : Rule) (children : List ParseTree) :
    (node rule children).leaves = leavesAll children := rfl

theorem leavesAll_cons (tree : ParseTree) (trees : List ParseTree) :
    leavesAll (tree :: trees) = tree.leaves ++ leavesAll trees := rfl

/-- Leaves are terminals, and what is below a node is derived from the right-hand side of its rule. -/
inductive Valid (rules : List Rule) : ParseTree → Prop
  | leaf {t : Terminal} (hname : IsTerminal rules t.name) : Valid rules (leaf t)
  | node {rule : Rule} {children : List ParseTree} (hrule : rule ∈ rules)
    (hsymbols : children.map symbol = rule.rhsNames)
    (hchildren : ∀ tree ∈ children, Valid rules tree) : Valid rules (node rule children)

/-- Induction over trees and rows of trees. -/
theorem induction {P : ParseTree → Prop} {Q : List ParseTree → Prop} (hleaf : ∀ t, P (leaf t))
    (hnode : ∀ rule children, Q children → P (node rule children)) (hnil : Q [])
    (hcons : ∀ tree trees, P tree → Q trees → Q (tree :: trees)) :
    (∀ tree, P tree) ∧ ∀ trees, Q trees :=
  ⟨@ParseTree.rec P Q hleaf hnode hnil hcons, @ParseTree.rec_1 P Q hleaf hnode hnil hcons⟩

/-! Rows of trees that are put side by side spell their texts one behind the other, and a row of
leaves spells its terminals. -/

theorem leavesAll_append (trees trees' : List ParseTree) :
    leavesAll (trees ++ trees') = leavesAll trees ++ leavesAll trees' := by
  induction trees with
  | nil => rfl
  | cons tree trees ih =>
    rw [List.cons_append, leavesAll_cons, leavesAll_cons, ih, List.append_assoc]

theorem leavesAll_map_leaf (w : List Terminal) : leavesAll (w.map leaf) = w := by
  induction w with
  | nil => rfl
  | cons t w ih =>
    rw [List.map_cons, leavesAll_cons, ih]
    rfl

end ParseTree

open ParseTree

variable {rules : List Rule} {form : List String} {w : List Terminal}

/-- A row of trees is derived from a row of names and spells terminals. -/
structure IsForest (rules : List Rule) (form : List String) (w : List Terminal)
    (forest : List ParseTree) : Prop where
  symbols : forest.map symbol = form
  leaves : leavesAll forest = w
  valid : ∀ tree ∈ forest, Valid rules tree

/-- If a rule is applied, the trees of its right-hand side are put together to one. -/
theorem IsForest.exists_of_produces {form' : List String} {forest : List ParseTree}
    (h : IsForest rules form w forest) (hstep : Produces rules form' form) :
    ∃ forest', IsForest rules form' w forest' := by
  obtain ⟨hsymbols, hleaves, hvalid⟩ := h
  cases hstep with
  | @apply r hr before after =>
    -- the row is cut where the right-hand side begins and where it ends
    obtain ⟨front, trees, rfl, hfront, htrees⟩ := List.map_eq_append_iff.1 hsymbols
    obtain ⟨left, children, rfl, hleft, hchildren⟩ := List.map_eq_append_iff.1 hfront
    refine ⟨left ++ node r children :: trees, ?_, ?_, fun tree htree => ?_⟩
    · rw [List.map_append, List.map_cons, hleft, htrees]
      rfl
    · rw [← hleaves, leavesAll_append, leavesAll_append, leavesAll_append, List.append_assoc,
        leavesAll_cons, leaves_node]
    · rcases List.mem_append.1 htree with htree | htree
      · exact hvalid tree (List.mem_append_left _ (List.mem_append_left _ htree))
      · rcases List.mem_cons.1 htree with rfl | htree
        · refine .node hr hchildren fun child hchild => hvalid child ?_
          exact List.mem_append_left _ (List.mem_append_right _ hchild)
        · exact hvalid tree (List.mem_append_right _ htree)

/-- What derives terminals has trees that spell them. -/
theorem exists_forest (h : Derives rules form (w.map (·.name)))
    (hw : ∀ name ∈ w.map (·.name), IsTerminal rules name) :
    ∃ forest, IsForest rules form w forest := by
  induction h using Relation.ReflTransGen.head_induction_on with
  | refl =>
    -- terminals are a row of leaves
    refine ⟨w.map leaf, ?_, leavesAll_map_leaf w, fun tree htree => ?_⟩
    · rw [List.map_map]
      rfl
    · obtain ⟨t, ht, rfl⟩ := List.mem_map.1 htree
      exact .leaf (hw t.name (List.mem_map_of_mem ht))
  | head hstep _ ih =>
    obtain ⟨forest, hforest⟩ := ih
    exact hforest.exists_of_produces hstep

/-- A sentence has a tree. -/
theorem IsSentence.exists_tree {start : String} (h : IsSentence rules start (w.map (·.name))) :
    ∃ tree, tree.symbol = start ∧ tree.leaves = w ∧ Valid rules tree := by
  obtain ⟨forest, hsymbols, hleaves, hvalid⟩ := exists_forest h.derives h.terminals
  -- the row for the start symbol is a single tree
  obtain ⟨tree, trees, rfl, hsymbol, htrees⟩ := List.map_eq_cons_iff.1 hsymbols
  obtain rfl := List.map_eq_nil_iff.1 htrees
  refine ⟨tree, hsymbol, ?_, hvalid tree List.mem_cons_self⟩
  rw [← hleaves]
  exact (List.append_nil _).symm

end GuardedGrammar
