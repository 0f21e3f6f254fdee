import SmallLisp.Proofs.Nodes
import SmallLisp.Proofs.Places

/-!
# Nodes in the order of the text

The preorder of a program is the order in which its nodes are introduced: the tokens that introduce them
are among those of the text, in their order (`Derivation.introductions_sublist`), and tokens that the
scanner finds stand one behind the other (`Cursor.Yields.pairwise`). Main statement:
`Program.nodes_in_order`.
-/

set_option autoImplicit false

namespace SmallLisp

namespace Expr

theorem sizeOf_lt_of_mem_children {e c : Expr} (h : c ∈ e.children) : sizeOf c < sizeOf e := by
  cases e with
  | call callee args pos =>
    have hc : sizeOf c < sizeOf args := List.sizeOf_lt_of_mem h
    rw [call.sizeOf_spec]
    omega
  | _ => simp only [children] at h; grind

/-- What holds of an expression if it holds of its parts holds of every expression. -/
theorem induction_on_children {motive : Expr → Prop}
    (h : ∀ e : Expr, (∀ c ∈ e.children, motive c) → motive e) (e : Expr) : motive e := by
  refine h e fun c hc => ?_
  have hlt := sizeOf_lt_of_mem_children hc
  exact induction_on_children h c
termination_by e

/-! ## The preorder -/

/-- A node comes in front of its parts, which are one level further down. -/
theorem preorder_eq (depth : Nat) (e : Expr) :
    e.preorder depth = (depth, e) :: preorderAll (depth + 1) e.children := by
  cases e <;> simp [preorder, preorderAll, children]

theorem preorderAll_eq_flatMap (depth : Nat) (es : List Expr) :
    preorderAll depth es = es.flatMap (·.preorder depth) := by
  induction es with
  | nil => rfl
  | cons e es ih => rw [preorderAll, ih, List.flatMap_cons]

theorem mem_preorderAll {depth : Nat} {es : List Expr} {node : Nat × Expr} :
    node ∈ preorderAll depth es ↔ ∃ e ∈ es, node ∈ e.preorder depth := by
  rw [preorderAll_eq_flatMap, List.mem_flatMap]

/-- The parts of a node that is listed are listed. -/
theorem mem_preorder_of_part (e : Expr) {depth k : Nat} {node c : Expr}
    (h : (k, node) ∈ e.preorder depth) (hc : c ∈ node.children) :
    (k + 1, c) ∈ e.preorder depth := by
  induction e using induction_on_children generalizing depth with
  | h e ih =>
    rw [preorder_eq] at h ⊢
    refine List.mem_cons_of_mem _ (mem_preorderAll.2 ?_)
    rcases List.mem_cons.1 h with heq | h
    · cases heq
      exact ⟨c, hc, by rw [preorder_eq]; exact List.mem_cons_self⟩
    · obtain ⟨part, hpart, h⟩ := mem_preorderAll.1 h
      exact ⟨part, hpart, ih part hpart h⟩

end Expr

/-- All nodes of a program in preorder. -/
def Program.nodes (p : Program) : List Expr := (Expr.preorderAll 0 p.exprs).map (·.2)

namespace Program

theorem Node.of_mem_preorder {p : Program} {e : Expr} (he : p.Node e) {depth : Nat}
    {node : Nat × Expr} (h : node ∈ e.preorder depth) : p.Node node.2 := by
  induction e using Expr.induction_on_children generalizing depth with
  | h e ih =>
    rw [Expr.preorder_eq] at h
    rcases List.mem_cons.1 h with rfl | h
    · exact he
    · obtain ⟨part, hpart, h⟩ := Expr.mem_preorderAll.1 h
      exact ih part hpart (he.part hpart) h

/-- The preorder lists all nodes of a program and nothing else. -/
theorem mem_nodes_iff {p : Program} {e : Expr} : e ∈ p.nodes ↔ p.Node e := by
  constructor
  · intro h
    obtain ⟨node, hnode, rfl⟩ := List.mem_map.1 h
    obtain ⟨top, htop, hnode⟩ := Expr.mem_preorderAll.1 hnode
    exact (Node.expr htop).of_mem_preorder hnode
  · intro h
    have hlisted : ∃ k, (k, e) ∈ Expr.preorderAll 0 p.exprs := by
      induction h with
      | @expr e he =>
        exact ⟨0, Expr.mem_preorderAll.2 ⟨e, he, by rw [Expr.preorder_eq]; exact List.mem_cons_self⟩⟩
      | part _ hc ih =>
        obtain ⟨k, hk⟩ := ih
        obtain ⟨top, htop, hk⟩ := Expr.mem_preorderAll.1 hk
        exact ⟨k + 1, Expr.mem_preorderAll.2 ⟨top, htop, top.mem_preorder_of_part hk hc⟩⟩
    obtain ⟨k, hk⟩ := hlisted
    exact List.mem_map.2 ⟨_, hk, rfl⟩

end Program

/-! ## Nodes and tokens -/

namespace Derivation

/-- The tokens that introduce the nodes of some derived expressions, in preorder, are among the tokens in
their order if this is so for each. -/
theorem introductions_sublist_words (ds : List Derivation) (depth : Nat)
    (h : ∀ d ∈ ds, List.Sublist ((d.expr.preorder depth).map (·.2.introduction)) d.word) :
    List.Sublist ((Expr.preorderAll depth (exprs ds)).map (·.2.introduction)) (words ds) := by
  induction ds with
  | nil => exact .refl _
  | cons d ds ih =>
    obtain ⟨hd, hds⟩ := List.forall_mem_cons.1 h
    rw [exprs, Expr.preorderAll, List.map_append, words]
    exact hd.append (ih hds)

theorem introductions_sublist (d : Derivation) (depth : Nat) :
    List.Sublist ((d.expr.preorder depth).map (·.2.introduction)) d.word := by
  generalize he : d.expr = e
  induction e using Expr.induction_on_children generalizing d depth with
  | h e ih =>
    subst he
    have hfront := List.singleton_sublist.2 d.introduction_mem_front
    have hparts := introductions_sublist_words d.parts (depth + 1) fun c hc =>
      ih c.expr (d.children_expr ▸ List.mem_map_of_mem hc) c _ rfl
    rw [Expr.preorder_eq, d.children_expr, ← exprs_eq_map, d.word_eq, List.map_cons]
    exact (hfront.append hparts).trans (List.sublist_append_left _ _)

end Derivation

/-! ## Tokens in a text -/

namespace Cursor

/-- A token other than the end covers a piece of the text. -/
theorem offset_lt_of_next {c after : Cursor} {t : Token} (h : c.next = (.ok t, after))
    (ht : t.isEof = false) : t.position.offset < after.position.offset := by
  obtain ⟨skipped, rest, hc, hl⟩ := c.exists_skipped
  have hs := step_next hc hl
  rw [h] at hs
  cases hs with
  | eof => cases ht
  | @token w tail x _ hx =>
    have hw := List.length_pos_iff.2 hx.ne_nil
    show (c.position.through skipped).offset < ((c.position.through skipped).through w).offset
    rw [Position.through_offset _ w]
    omega

/-- Tokens that are found in turn stand one behind the other. -/
theorem Yields.pairwise {text : List Char} {c : Cursor} {ts : List Token} (hc : c.StandsIn text)
    (h : c.Yields ts) : (∀ t ∈ ts, c.position.offset ≤ t.position.offset) ∧
      ts.Pairwise fun t u => t.position.offset < u.position.offset := by
  induction h with
  | nil => exact ⟨nofun, .nil⟩
  | @cons c after t ts hn ht _ ih =>
    have hnext : c.next.1 = .ok t := by rw [hn]
    have hafter : after.StandsIn text := by
      have := hc.next
      rwa [hn] at this
    obtain ⟨hle, hts⟩ := ih hafter
    have hfirst := (hc.layout_of_next hnext).1
    have hlt := offset_lt_of_next hn ht
    have hbehind : ∀ u ∈ ts, t.position.offset < u.position.offset :=
      fun u hu => Nat.lt_of_lt_of_le hlt (hle u hu)
    refine ⟨List.forall_mem_cons.2 ⟨hfirst, fun u hu => ?_⟩, .cons hbehind hts⟩
    exact Nat.le_trans hfirst (Nat.le_of_lt (hbehind u hu))

end Cursor

namespace Program

/-- **Nodes stand in the order of the text.** The nodes of a program that is read from a text, all of
them, listed in preorder, begin further and further on, so no two have the same position. Each begins
where the token stands that introduces it, which is one of the consecutive tokens that the node itself
is made of. -/
theorem nodes_in_order {text : List Char} {p : Program} (h : parse text = .ok p) :
    (∀ e, e ∈ p.nodes ↔ p.Node e) ∧
    (p.nodes.map (·.position.offset)).Pairwise (· < ·) ∧
    (p.nodes.map (·.position)).Nodup ∧
    ∀ e ∈ p.nodes, e.introduction.StandsIn text ∧
      ∃ d : Derivation, d.expr = e ∧ d.word.map .ok <:+: (Cursor.start text).results ∧
        e.introduction ∈ d.front := by
  obtain ⟨ds, hyields, hp⟩ := exists_derivations_of_parse h
  have hsublist := Derivation.introductions_sublist_words ds 0 fun d _ => d.introductions_sublist 0
  have hoffsets : p.nodes.Pairwise fun e e' => e.position.offset < e'.position.offset := by
    have hpairwise := (hyields.pairwise (Cursor.start_standsIn text)).2.sublist hsublist
    rw [List.pairwise_map] at hpairwise
    rw [nodes, List.pairwise_map, hp]
    exact hpairwise
  refine ⟨fun e => mem_nodes_iff, List.pairwise_map.2 hoffsets, ?_, fun e he => ?_⟩
  · refine List.pairwise_map.2 (hoffsets.imp fun hlt heq => ?_)
    rw [heq] at hlt
    exact Nat.lt_irrefl _ hlt
  · have hnode := mem_nodes_iff.1 he
    have hfound := introduction_mem_results h hnode
    obtain ⟨d, rfl, hd⟩ := exists_derivation_of_node h hnode
    exact ⟨(Cursor.reported_of_mem_results text).1 _ hfound, d, rfl, hd, d.introduction_mem_front⟩

/-- A function whose body is a name, and in the next line a call with `()` among its arguments. -/
theorem nodes_in_order_of_lines :
    let text := "(function x y)\n(f () 1)".toList
    let p : Program := ⟨.start, [.function ["x"] (.name "y" ⟨1, 13, 12⟩) ⟨1, 2, 1⟩,
      .call (.named "f") [.unit ⟨2, 4, 18⟩, .literal (.int 1) ⟨2, 7, 21⟩] ⟨2, 2, 16⟩]⟩
    parse text = .ok p ∧ p.nodes.map (·.position.offset) = [1, 12, 16, 18, 21] ∧
      (p.nodes.map (·.position.offset)).Pairwise (· < ·) ∧
      ∀ e ∈ p.nodes, e.introduction.StandsIn text := by
  intro text p
  have hp : parse text = .ok p := by
    simp only [text, p]
    rfl
  obtain ⟨-, hoffsets, -, htokens⟩ := nodes_in_order hp
  exact ⟨hp, rfl, hoffsets, fun e he => (htokens e he).1⟩

end Program

end SmallLisp
