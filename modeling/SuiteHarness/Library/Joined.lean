import Mathlib

/-!
# Texts joined with a separator

A join tells its components apart when at most one of them, at a fixed place,
may contain the separator: the components before it are read from the front and
those after it from the back.
-/

set_option autoImplicit false

namespace SuiteHarness.Library.Joined

section Lists
variable {α : Type*} {sep : α}

theorem split_first {a b x y : List α} (ha : sep ∉ a) (hb : sep ∉ b)
    (h : a++sep::x = b++sep::y) : a = b ∧ x = y := by
  induction a generalizing b with
  | nil =>
    cases b with
    | nil => exact ⟨rfl,(List.cons.inj h).2⟩
    | cons c b =>
      obtain rfl := (List.cons.inj h).1
      exact absurd List.mem_cons_self hb
  | cons c a ih =>
    cases b with
    | nil =>
      obtain rfl := (List.cons.inj h).1
      exact absurd List.mem_cons_self ha
    | cons d b =>
      obtain ⟨rfl,htail⟩ := List.cons.inj h
      obtain ⟨rfl,rfl⟩ := ih (fun hm => ha (List.mem_cons_of_mem _ hm))
        (fun hm => hb (List.mem_cons_of_mem _ hm)) htail
      exact ⟨rfl,rfl⟩

theorem split_last {a b x y : List α} (hx : sep ∉ x) (hy : sep ∉ y)
    (h : a++sep::x = b++sep::y) : a = b ∧ x = y := by
  have hreverse := congrArg List.reverse h
  simp only [List.reverse_append, List.reverse_cons, List.append_assoc, List.singleton_append]
    at hreverse
  obtain ⟨h1,h2⟩ := split_first (by simpa using hx) (by simpa using hy) hreverse
  exact ⟨List.reverse_injective h2,List.reverse_injective h1⟩

def join (sep : α) (parts : List (List α)) : List α := [sep].intercalate parts

theorem join_cons (a : List α) {parts : List (List α)} (h : parts ≠ []) :
    join sep (a::parts) = a++sep::join sep parts := by
  cases parts with
  | nil => exact absurd rfl h
  | cons b parts => simp [join, List.intercalate_cons_cons]

theorem join_front {pre pre' rest rest' : List (List α)} (hlength : pre.length = pre'.length)
    (hpre : ∀ a ∈ pre, sep ∉ a) (hpre' : ∀ a ∈ pre', sep ∉ a) (hrest : rest ≠ [])
    (hrest' : rest' ≠ []) (h : join sep (pre++rest) = join sep (pre'++rest')) :
    pre = pre' ∧ join sep rest = join sep rest' := by
  induction pre generalizing pre' with
  | nil =>
    obtain rfl := List.length_eq_zero_iff.mp hlength.symm
    exact ⟨rfl,h⟩
  | cons a pre ih =>
    cases pre' with
    | nil => cases hlength
    | cons b pre' =>
      rw [List.cons_append, List.cons_append, join_cons _ (by simp [hrest]),
        join_cons _ (by simp [hrest'])] at h
      obtain ⟨rfl,hjoin⟩ := split_first (hpre a List.mem_cons_self) (hpre' b List.mem_cons_self) h
      obtain ⟨rfl,hlast⟩ := ih (Nat.succ.inj hlength)
        (fun c hc => hpre c (List.mem_cons_of_mem a hc))
        (fun c hc => hpre' c (List.mem_cons_of_mem a hc)) hjoin
      exact ⟨rfl,hlast⟩

theorem join_append {front : List (List α)} (a : List α) (hfront : front ≠ []) :
    join sep (front++[a]) = join sep front++sep::a := by
  induction front with
  | nil => exact absurd rfl hfront
  | cons b front ih =>
    cases front with
    | nil => simp [join]
    | cons c front =>
      rw [List.cons_append, join_cons _ (by simp), join_cons _ (by simp), ih (by simp)]
      simp

theorem join_back {post post' : List (List α)} {m m' : List α}
    (hlength : post.length = post'.length) (hpost : ∀ a ∈ post, sep ∉ a)
    (hpost' : ∀ a ∈ post', sep ∉ a) (h : join sep (m::post) = join sep (m'::post')) :
    m = m' ∧ post = post' := by
  induction post using List.reverseRecOn generalizing post' with
  | nil =>
    obtain rfl := List.length_eq_zero_iff.mp hlength.symm
    exact ⟨by simpa [join] using h,rfl⟩
  | append_singleton post a ih =>
    rcases List.eq_nil_or_concat post' with rfl | ⟨post',b,rfl⟩
    · simp at hlength
    · rw [List.concat_eq_append] at hlength hpost' h ⊢
      rw [← List.cons_append, ← List.cons_append, join_append _ (by simp),
        join_append _ (by simp)] at h
      obtain ⟨hjoin,rfl⟩ := split_last (hpost a (by simp)) (hpost' b (by simp)) h
      obtain ⟨rfl,rfl⟩ := ih (by simpa using hlength) (fun c hc => hpost c (by simp [hc]))
        (fun c hc => hpost' c (by simp [hc])) hjoin
      exact ⟨rfl,rfl⟩

theorem join_injective {pre pre' post post' : List (List α)} {m m' : List α}
    (hbefore : pre.length = pre'.length) (hafter : post.length = post'.length)
    (hfree : ∀ a ∈ pre++post, sep ∉ a) (hfree' : ∀ a ∈ pre'++post', sep ∉ a)
    (h : join sep (pre++m::post) = join sep (pre'++m'::post')) :
    pre = pre' ∧ m = m' ∧ post = post' := by
  obtain ⟨hpre,hjoin⟩ := join_front hbefore (fun a ha => hfree a (List.mem_append_left _ ha))
    (fun a ha => hfree' a (List.mem_append_left _ ha)) (by simp) (by simp) h
  obtain ⟨hm,hpost⟩ := join_back hafter (fun a ha => hfree a (List.mem_append_right _ ha))
    (fun a ha => hfree' a (List.mem_append_right _ ha)) hjoin
  exact ⟨hpre,hm,hpost⟩

end Lists

/-- The same for `String.intercalate` with a separator of one character. -/
theorem intercalate_injective {separator : String} (sep : Char) (hsep : separator.toList = [sep])
    {pre pre' post post' : List String} {m m' : String}
    (hbefore : pre.length = pre'.length) (hafter : post.length = post'.length)
    (hfree : ∀ s ∈ pre++post, sep ∉ s.toList) (hfree' : ∀ s ∈ pre'++post', sep ∉ s.toList)
    (h : separator.intercalate (pre++m::post) = separator.intercalate (pre'++m'::post')) :
    pre = pre' ∧ m = m' ∧ post = post' := by
  have hlists := congrArg String.toList h
  simp only [String.toList_intercalate, List.map_append, List.map_cons, hsep] at hlists
  have hchars : ∀ l k : List String, (∀ s ∈ l++k, sep ∉ s.toList) →
      ∀ a ∈ l.map String.toList++k.map String.toList, sep ∉ a := by
    intro l k hl a ha
    rw [← List.map_append] at ha
    obtain ⟨s,hs,rfl⟩ := List.mem_map.mp ha
    exact hl s hs
  obtain ⟨h1,h2,h3⟩ := join_injective (by simpa using hbefore) (by simpa using hafter)
    (hchars pre post hfree) (hchars pre' post' hfree') hlists
  have hinj : Function.Injective (List.map String.toList) :=
    List.map_injective_iff.mpr (fun s t => String.toList_inj.mp)
  exact ⟨hinj h1,String.toList_inj.mp h2,hinj h3⟩

end SuiteHarness.Library.Joined
