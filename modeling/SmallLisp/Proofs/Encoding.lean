import SmallLisp.Value.Order

/-!
# Texts with a UTF-8 form

A text has a UTF-8 form unless it holds a surrogate, which no character of a `String` is. To compare two
values may go wrong in no other way than that one of them holds a text without such a form, at any
nesting (`Value.compare_error`), and nothing that is made of such values holds one
(`Value.render_encodable`).

What holds of a value and of all items in it, at any nesting, is said by `Value.Everywhere`.
-/

set_option autoImplicit false

namespace SmallLisp

/-! ## Texts -/

theorem CodePoint.isSurrogate_ofChar (c : Char) : (CodePoint.ofChar c).isSurrogate = false := by
  have hvalid : c.toNat.isValidChar := c.valid
  have hnat : (CodePoint.ofChar c).toNat = c.toNat := rfl
  simp only [Nat.isValidChar] at hvalid
  simp only [CodePoint.isSurrogate, hnat, Bool.and_eq_false_iff, decide_eq_false_iff_not]
  omega

namespace Text

/-- The text holds no surrogate. -/
def Encodable (t : Text) : Prop := ∀ c ∈ t, c.isSurrogate = false

theorem encodable_ofString (s : String) : (ofString s).Encodable := by
  intro c hc
  obtain ⟨d, -, rfl⟩ := List.mem_map.1 hc
  exact CodePoint.isSurrogate_ofChar d

theorem Encodable.append {s t : Text} (hs : s.Encodable) (ht : t.Encodable) :
    Encodable (s ++ t) := by
  intro c hc
  rcases List.mem_append.1 hc with hc | hc
  · exact hs c hc
  · exact ht c hc

theorem Encodable.utf8? {t : Text} (ht : t.Encodable) : (Text.utf8? t).isSome := by
  have hnone : t.any CodePoint.isSurrogate = false := by simpa [Encodable] using ht
  simp [Text.utf8?, hnone]

theorem Encodable.compare? {s t : Text} (hs : s.Encodable) (ht : t.Encodable) :
    s.compare? t ≠ none := by
  obtain ⟨a, ha⟩ := Option.isSome_iff_exists.1 hs.utf8?
  obtain ⟨b, hb⟩ := Option.isSome_iff_exists.1 ht.utf8?
  simp [Text.compare?, ha, hb]

end Text

/-! ## Values -/

namespace Value

/-- The items of an array. -/
def items : Value → List Value
  | array items _ => items
  | _ => []

/-- A property of a value and of all items in it. -/
inductive Everywhere (P : Value → Prop) : Value → Prop
  | intro {v : Value} (h : P v) (hitems : ∀ w ∈ v.items, Everywhere P w) : Everywhere P v

/-- The text of a string and a character on its own hold no surrogate. -/
def Encodable : Value → Prop
  | char c _ => c.isSurrogate = false
  | string t _ => Text.Encodable t
  | _ => True

/-- The text of a string holds no surrogate. A character may be one: characters are compared as numbers. -/
def TextEncodable : Value → Prop
  | string t _ => Text.Encodable t
  | _ => True

theorem Encodable.text {v : Value} (h : v.Encodable) : v.TextEncodable := by
  cases v with
  | string t i => exact h
  | _ => trivial

theorem Everywhere.self {P : Value → Prop} {v : Value} (h : v.Everywhere P) : P v := by
  cases h with
  | intro h _ => exact h

theorem Everywhere.item {P : Value → Prop} {v w : Value} (h : v.Everywhere P) (hw : w ∈ v.items) :
    w.Everywhere P := by
  cases h with
  | intro _ hitems => exact hitems w hw

theorem Everywhere.mono {P Q : Value → Prop} {v : Value} (h : v.Everywhere P)
    (hPQ : ∀ v, P v → Q v) : v.Everywhere Q := by
  induction h with
  | intro h _ ih => exact .intro (hPQ _ h) ih

theorem Everywhere.of_no_items {P : Value → Prop} {v : Value} (hitems : v.items = []) (h : P v) :
    v.Everywhere P :=
  .intro h fun _ hw => absurd (hitems ▸ hw) List.not_mem_nil

/-- Induction on the items of a value. -/
theorem induction_on_items {motive : Value → Prop}
    (h : ∀ v, (∀ w ∈ v.items, motive w) → motive v) (v : Value) : motive v := by
  refine h v fun w hw => ?_
  have hlt : sizeOf w < sizeOf v := by
    cases v with
    | array ws i =>
      have hmem : sizeOf w < sizeOf ws := List.sizeOf_lt_of_mem hw
      rw [array.sizeOf_spec ws i]
      omega
    | _ => cases hw
  exact induction_on_items h w
termination_by v

theorem renderItems_encodable {vs : List Value} (h : ∀ v ∈ vs, v.render.Encodable) :
    (renderItems vs).Encodable := by
  induction vs with
  | nil => exact fun c hc => absurd hc List.not_mem_nil
  | cons v vs ih =>
    rw [renderItems]
    refine (Text.encodable_ofString " ").append ((h v List.mem_cons_self).append (ih ?_))
    exact fun v hv => h v (List.mem_cons_of_mem _ hv)

theorem render_encodable {v : Value} (h : v.Everywhere Encodable) : v.render.Encodable := by
  induction h with
  | @intro v hv _ ih =>
    cases v with
    | char c i =>
      rw [render]
      intro d hd
      rw [List.mem_singleton.1 hd]
      exact hv
    | string t i => exact hv
    | array items i =>
      rw [render]
      exact ((Text.encodable_ofString _).append (renderItems_encodable ih)).append
        (Text.encodable_ofString _)
    | _ =>
      rw [render]
      exact Text.encodable_ofString _

/-- The comparison of the items of two arrays fails as that of two of them does. -/
theorem compareItems_error {xs ys : List Value} {f : Failure} (h : compareItems xs ys = .error f) :
    ∃ x ∈ xs, ∃ y ∈ ys, x.compare y = .error f := by
  induction xs generalizing ys with
  | nil => simp [compareItems] at h
  | cons x xs ih =>
    cases ys with
    | nil => simp [compareItems] at h
    | cons y ys =>
      rw [compareItems] at h
      split at h
      · obtain ⟨x', hx', y', hy', h'⟩ := ih h
        exact ⟨x', List.mem_cons_of_mem _ hx', y', List.mem_cons_of_mem _ hy', h'⟩
      · exact ⟨x, List.mem_cons_self, y, List.mem_cons_self, h⟩

/-- To compare two values goes wrong for a text without a UTF-8 form alone. -/
theorem compare_error {a b : Value} {f : Failure} (h : a.compare b = .error f) :
    f = .unencodable ∧ ¬ (a.Everywhere TextEncodable ∧ b.Everywhere TextEncodable) := by
  induction a using induction_on_items generalizing b with
  | h a ih =>
    unfold compare at h
    split at h
    all_goals try cases h
    · rename_i s i t j
      cases ho : Text.compare? s t with
      | some o =>
        rw [ho] at h
        cases h
      | none =>
        rw [ho] at h
        cases h
        exact ⟨rfl, fun ⟨hs, ht⟩ => Text.Encodable.compare? hs.self ht.self ho⟩
    · rename_i xs i ys j
      split at h
      · obtain ⟨x, hx, y, hy, hxy⟩ := compareItems_error h
        obtain ⟨hf, hencodable⟩ := ih x hx hxy
        exact ⟨hf, fun ⟨ha, hb⟩ => hencodable ⟨ha.item hx, hb.item hy⟩⟩
      · cases h

theorem relate_eq (rel : Relation) (a b : Value) : a.relate rel b =
    match b.require a.kind "compare" with
    | .error f => .error (.ofFault f)
    | .ok b =>
      match a.compare b with
      | .error f => .error f
      | .ok o => .ok (bool (rel.holds o)) := by
  rw [relate]
  cases b.require a.kind "compare" with
  | error f => rfl
  | ok b =>
    show (a.compare b >>= fun o => pure (bool (rel.holds o))) = match a.compare b with
      | .error f => .error f
      | .ok o => .ok (bool (rel.holds o))
    cases a.compare b <;> rfl

/-- What a value without surrogates is converted to is no text with one. -/
theorem require_encodable {v w : Value} {kind : Kind} {operation : String}
    (hv : v.Everywhere Encodable) (h : v.require kind operation = .ok w) :
    w.Everywhere TextEncodable := by
  unfold require coerce at h
  split at h
  · cases h
    exact hv.mono fun _ => Encodable.text
  · cases kind with
    | string =>
      cases h
      exact .of_no_items rfl (render_encodable hv)
    | bool =>
      unfold convert at h
      cases ht : v.truth with
      | error f =>
        rw [ht] at h
        cases h
      | ok b =>
        rw [ht] at h
        cases h
        exact .of_no_items rfl trivial
    | int => cases v <;> cases h <;> exact .of_no_items rfl trivial
    | char =>
      cases v with
      | int n i =>
        unfold convert at h
        cases hc : CodePoint.ofInt? n with
        | none =>
          simp only [hc] at h
          cases h
        | some c =>
          simp only [hc] at h
          cases h
          exact .of_no_items rfl trivial
      | _ => cases h
    | _ => cases h

/-- To relate two values goes wrong for want of a UTF-8 form only if one of them holds a surrogate. -/
theorem relate_unencodable {rel : Relation} {a b : Value}
    (h : a.relate rel b = .error .unencodable) :
    ¬ (a.Everywhere Encodable ∧ b.Everywhere Encodable) := by
  rintro ⟨ha, hb⟩
  rw [relate_eq] at h
  cases hrequire : b.require a.kind "compare" with
  | error f =>
    rw [hrequire] at h
    cases h
  | ok b' =>
    rw [hrequire] at h
    cases ho : a.compare b' with
    | ok o =>
      simp only [ho] at h
      cases h
    | error f =>
      obtain ⟨-, hencodable⟩ := compare_error ho
      exact hencodable ⟨ha.mono fun _ => Encodable.text, require_encodable hb hrequire⟩

end Value

end SmallLisp
