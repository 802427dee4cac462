import Mathlib.Data.List.Chain
import Mathlib.Data.List.Induction
import Mathlib.Data.List.Pairwise
import Mathlib.Order.Lattice

/-!
# Clusters of spans

Spans on a line that are joined where the next one starts within reach of an earlier
one's stop.  What a list of spans is joined to does not depend on the order of the list.
-/

namespace Panops
namespace Lib
namespace Clusters

variable {α τ : Type} [LinearOrder τ] (start stop : α → τ) (reach : τ → τ)

/-- Each span starts within reach of the one before it and stops no earlier. -/
def Linked (a b : α) : Prop :=
  start a ≤ start b ∧ stop a ≤ stop b ∧ start b ≤ reach (stop a)

/-- The span goes from the start of the chain to its stop. -/
structure Hull (chain : List α) (o : α) : Prop where
  linked : chain.IsChain (Linked start stop reach)
  first : ∃ a, chain.head? = some a ∧ start a = start o
  last : ∃ a, chain.getLast? = some a ∧ stop a = stop o

def Inside (a o : α) : Prop := start o ≤ start a ∧ stop a ≤ stop o

/-- `out` is what the members of `xs` are joined to. -/
structure Joined (xs out : List α) : Prop where
  apart : out.Pairwise fun a b => reach (stop a) < start b
  inside : ∀ a ∈ xs, ∃ o ∈ out, Inside start stop a o
  hull : ∀ o ∈ out, ∃ chain, chain.Sublist xs ∧ Hull start stop reach chain o

variable {start stop reach} {xs ys out out' chain : List α} {a b o o' : α}

theorem Hull.ne_nil (h : Hull start stop reach chain o) : chain ≠ [] := by
  obtain ⟨a, ha, -⟩ := h.first
  intro hnil
  rw [hnil] at ha
  cases ha

theorem hull_singleton (a : α) : Hull start stop reach [a] a :=
  ⟨List.IsChain.singleton a, ⟨a, rfl, rfl⟩, ⟨a, rfl, rfl⟩⟩

theorem linked_trans_start (h : chain.IsChain (Linked start stop reach)) :
    chain.Pairwise fun a b => start a ≤ start b ∧ stop a ≤ stop b := by
  have htrans : IsTrans α fun a b => start a ≤ start b ∧ stop a ≤ stop b :=
    ⟨fun _ _ _ hab hbc => ⟨le_trans hab.1 hbc.1, le_trans hab.2 hbc.2⟩⟩
  have hweak : chain.IsChain fun a b => start a ≤ start b ∧ stop a ≤ stop b :=
    List.IsChain.imp (fun _ _ hab => ⟨hab.1, hab.2.1⟩) h
  exact hweak.pairwise

/-- Every member of the chain lies in the hull. -/
theorem Hull.inside (h : Hull start stop reach chain o) (ha : a ∈ chain) :
    Inside start stop a o := by
  have hpairs := linked_trans_start h.linked
  obtain ⟨b, hb, hstart⟩ := h.first
  obtain ⟨c, hc, hstop⟩ := h.last
  constructor
  · obtain ⟨rest, rfl⟩ : ∃ rest, chain = b :: rest := by
      cases chain with
      | nil => cases hb
      | cons d rest => exact ⟨rest, by rw [Option.some.inj hb]⟩
    rw [← hstart]
    rcases List.mem_cons.mp ha with rfl | ha
    · exact le_refl _
    · exact ((List.pairwise_cons.mp hpairs).1 a ha).1
  · obtain ⟨front, rfl⟩ := List.getLast?_eq_some_iff.mp hc
    rw [← hstop]
    rcases List.mem_append.mp ha with ha | ha
    · exact ((List.pairwise_append.mp hpairs).2.2 a ha c (List.mem_singleton_self c)).2
    · rw [List.mem_singleton.mp ha]

/-- A later span in reach of the hull makes the chain longer. -/
theorem Hull.concat (h : Hull start stop reach chain o) (hstart : ∀ b ∈ chain, start b ≤ start a)
    (hreach : start a ≤ reach (stop o)) (hstop : stop o ≤ stop a) (ho : start o' = start o)
    (ho' : stop o' = stop a) : Hull start stop reach (chain ++ [a]) o' := by
  obtain ⟨c, hc, hlast⟩ := h.last
  obtain ⟨b, hb, hfirst⟩ := h.first
  refine ⟨?_, ⟨b, ?_, hfirst.trans ho.symm⟩, ⟨a, List.getLast?_concat, ho'.symm⟩⟩
  · refine h.linked.append (List.IsChain.singleton a) fun x hx y hy => ?_
    rw [hc] at hx
    obtain rfl := Option.some.inj hx
    obtain rfl := Option.some.inj hy
    have hmem : c ∈ chain := List.mem_of_getLast? hc
    exact ⟨hstart c hmem, hlast ▸ hstop, hlast ▸ hreach⟩
  · rw [List.head?_append, hb]
    rfl

theorem Hull.ordered (h : Hull start stop reach chain o) (hord : ∀ a ∈ chain, start a ≤ stop a) :
    start o ≤ stop o := by
  obtain ⟨a, ha, hfirst⟩ := h.first
  have hmem : a ∈ chain := List.mem_of_head? ha
  calc start o = start a := hfirst.symm
    _ ≤ stop a := hord a hmem
    _ ≤ stop o := (h.inside hmem).2

/-! ## Joining from left to right -/

theorem joined_nil : Joined start stop reach [] [] where
  apart := List.Pairwise.nil
  inside := by simp
  hull := by simp

theorem joined_self (hapart : out.Pairwise fun a b => reach (stop a) < start b) :
    Joined start stop reach out out where
  apart := hapart
  inside a ha := ⟨a, ha, le_refl _, le_refl _⟩
  hull o ho := ⟨[o], List.singleton_sublist.mpr ho, hull_singleton o⟩

theorem Joined.start_le (h : Joined start stop reach xs out) (ho : o ∈ out)
    (hlast : ∀ b ∈ xs, start b ≤ start a) : start o ≤ start a := by
  obtain ⟨chain, hsub, hhull⟩ := h.hull o ho
  obtain ⟨b, hb, hfirst⟩ := hhull.first
  rw [← hfirst]
  exact hlast b (hsub.subset (List.mem_of_head? hb))

/-- A span out of reach of all others stays alone. -/
theorem Joined.push (h : Joined start stop reach xs out)
    (hfar : ∀ o ∈ out, reach (stop o) < start a) :
    Joined start stop reach (xs ++ [a]) (out ++ [a]) where
  apart := by
    refine List.pairwise_append.mpr ⟨h.apart, List.pairwise_singleton _ a, fun o ho b hb => ?_⟩
    rw [List.mem_singleton.mp hb]
    exact hfar o ho
  inside b hb := by
    rcases List.mem_append.mp hb with hb | hb
    · obtain ⟨o, ho, hin⟩ := h.inside b hb
      exact ⟨o, List.mem_append_left _ ho, hin⟩
    · exact ⟨b, List.mem_append_right _ hb, le_refl _, le_refl _⟩
  hull o ho := by
    rcases List.mem_append.mp ho with ho | ho
    · obtain ⟨chain, hsub, hhull⟩ := h.hull o ho
      exact ⟨chain, hsub.trans (List.sublist_append_left xs [a]), hhull⟩
    · rw [List.mem_singleton.mp ho]
      exact ⟨[a], List.sublist_append_right xs [a], hull_singleton a⟩

/-- A span in reach of the last one is joined to it. -/
theorem Joined.extend {front : List α} (h : Joined start stop reach xs (front ++ [o]))
    (hlast : ∀ b ∈ xs, start b ≤ start a) (hreach : start a ≤ reach (stop o))
    (ho : start o' = start o) (ho' : stop o' = max (stop o) (stop a)) :
    Joined start stop reach (xs ++ [a]) (front ++ [o']) where
  apart := by
    obtain ⟨hfront, -, hlater⟩ := List.pairwise_append.mp h.apart
    refine List.pairwise_append.mpr ⟨hfront, List.pairwise_singleton _ o', fun c hc b hb => ?_⟩
    rw [List.mem_singleton.mp hb, ho]
    exact hlater c hc o (List.mem_singleton_self o)
  inside b hb := by
    have hmem : o' ∈ front ++ [o'] := List.mem_append_right _ (List.mem_singleton_self o')
    rcases List.mem_append.mp hb with hb | hb
    · obtain ⟨c, hc, hstart, hstop⟩ := h.inside b hb
      rcases List.mem_append.mp hc with hc | hc
      · exact ⟨c, List.mem_append_left _ hc, hstart, hstop⟩
      · rw [List.mem_singleton.mp hc] at hstart hstop
        refine ⟨o', hmem, ho ▸ hstart, ?_⟩
        rw [ho']
        exact le_trans hstop (le_max_left _ _)
    · rw [List.mem_singleton.mp hb]
      refine ⟨o', hmem, ?_, ?_⟩
      · rw [ho]
        exact h.start_le (List.mem_append_right _ (List.mem_singleton_self o)) hlast
      · rw [ho']
        exact le_max_right _ _
  hull c hc := by
    rcases List.mem_append.mp hc with hc | hc
    · obtain ⟨chain, hsub, hhull⟩ := h.hull c (List.mem_append_left _ hc)
      exact ⟨chain, hsub.trans (List.sublist_append_left xs [a]), hhull⟩
    · rw [List.mem_singleton.mp hc]
      obtain ⟨chain, hsub, hhull⟩ :=
        h.hull o (List.mem_append_right _ (List.mem_singleton_self o))
      rcases le_total (stop a) (stop o) with hle | hle
      · -- the span adds nothing to the hull
        obtain ⟨b, hb, hfirst⟩ := hhull.first
        obtain ⟨d, hd, hstop⟩ := hhull.last
        refine ⟨chain, hsub.trans (List.sublist_append_left xs [a]), hhull.linked,
          ⟨b, hb, hfirst.trans ho.symm⟩, ⟨d, hd, ?_⟩⟩
        rw [ho', max_eq_left hle, hstop]
      · refine ⟨chain ++ [a], hsub.append (List.Sublist.refl [a]), ?_⟩
        refine hhull.concat (fun b hb => hlast b (hsub.subset hb)) hreach hle ho ?_
        rw [ho', max_eq_right hle]

/-! ## There is one result -/

theorem lt_or_lt_of_ne (hapart : out.Pairwise fun a b => reach (stop a) < start b) (ho : o ∈ out)
    (ho' : o' ∈ out) (hne : o ≠ o') : reach (stop o) < start o' ∨ reach (stop o') < start o := by
  have hsymm : Std.Symm fun a b => reach (stop a) < start b ∨ reach (stop b) < start a :=
    ⟨fun _ _ => Or.symm⟩
  have hpairs : out.Pairwise fun a b => reach (stop a) < start b ∨ reach (stop b) < start a :=
    hapart.imp Or.inl
  exact hpairs.forall ho ho' hne

section Unique

variable (hreach : ∀ t, t ≤ reach t)

include hreach

/-- Of two spans that are apart, neither contains the other. -/
theorem eq_of_inside (hapart : out.Pairwise fun a b => reach (stop a) < start b)
    (hord : ∀ o ∈ out, start o ≤ stop o) (ho : o ∈ out) (ho' : o' ∈ out)
    (h : Inside start stop o o') : o = o' := by
  by_contra hne
  rcases lt_or_lt_of_ne hapart ho ho' hne with hlt | hlt
  · refine absurd hlt (not_lt_of_ge ?_)
    calc start o' ≤ start o := h.1
      _ ≤ stop o := hord o ho
      _ ≤ reach (stop o) := hreach _
  · refine absurd hlt (not_lt_of_ge ?_)
    calc start o ≤ stop o := hord o ho
      _ ≤ stop o' := h.2
      _ ≤ reach (stop o') := hreach _

variable (hmono : ∀ s t, s ≤ t → reach s ≤ reach t)

include hmono

/-- Linked spans lie in one and the same of several spans that are apart. -/
theorem eq_of_linked (hapart : out.Pairwise fun a b => reach (stop a) < start b) (ho : o ∈ out)
    (ho' : o' ∈ out) (ha : Inside start stop a o) (hb : Inside start stop b o')
    (hlink : Linked start stop reach a b) (hord : start b ≤ stop b) : o = o' := by
  by_contra hne
  rcases lt_or_lt_of_ne hapart ho ho' hne with hlt | hlt
  · refine absurd hlt (not_lt_of_ge ?_)
    calc start o' ≤ start b := hb.1
      _ ≤ reach (stop a) := hlink.2.2
      _ ≤ reach (stop o) := hmono _ _ ha.2
  · refine absurd hlt (not_lt_of_ge ?_)
    calc start o ≤ start a := ha.1
      _ ≤ start b := hlink.1
      _ ≤ stop b := hord
      _ ≤ stop o' := hb.2
      _ ≤ reach (stop o') := hreach _

theorem Joined.inside_of_hull (h : Joined start stop reach ys out)
    (hord : ∀ a ∈ ys, start a ≤ stop a) (hsub : ∀ a ∈ chain, a ∈ ys)
    (hhull : Hull start stop reach chain o) : ∃ o' ∈ out, Inside start stop o o' := by
  have hwalk : ∀ (rest : List α) (a : α), (a :: rest).IsChain (Linked start stop reach) →
      (∀ b ∈ rest, b ∈ ys) → ∀ o' ∈ out, Inside start stop a o' →
      ∀ b ∈ rest, Inside start stop b o' := by
    intro rest
    induction rest with
    | nil => exact fun _ _ _ _ _ _ b hb => absurd hb List.not_mem_nil
    | cons c rest ih =>
      intro a hchain hys o' ho' ha
      obtain ⟨hlink, hrest⟩ := List.isChain_cons_cons.mp hchain
      have hc : c ∈ ys := hys c List.mem_cons_self
      obtain ⟨o'', ho'', hin⟩ := h.inside c hc
      have heq := eq_of_linked hreach hmono h.apart ho' ho'' ha hin hlink (hord c hc)
      rw [← heq] at hin
      have hlater := ih c hrest (fun b hb => hys b (List.mem_cons_of_mem c hb)) o' ho' hin
      intro b hb
      rcases List.mem_cons.mp hb with rfl | hb
      · exact hin
      · exact hlater b hb
  obtain ⟨a, ha, hfirst⟩ := hhull.first
  obtain ⟨d, hd, hlast⟩ := hhull.last
  obtain ⟨o', ho', hin⟩ := h.inside a (hsub a (List.mem_of_head? ha))
  have hall : ∀ b ∈ chain, Inside start stop b o' := by
    cases chain with
    | nil => cases ha
    | cons c rest =>
      obtain rfl := Option.some.inj ha
      intro b hb
      rcases List.mem_cons.mp hb with rfl | hb
      · exact hin
      · exact hwalk rest c hhull.linked (fun b hb => hsub b (List.mem_cons_of_mem c hb)) o' ho'
          hin b hb
  refine ⟨o', ho', ?_, ?_⟩
  · rw [← hfirst]
    exact hin.1
  · rw [← hlast]
    exact (hall d (List.mem_of_getLast? hd)).2

variable (hext : ∀ a b, start a = start b → stop a = stop b → a = b)

include hext

theorem Joined.subset (h : Joined start stop reach xs out) (h' : Joined start stop reach ys out')
    (hmem : ∀ a, a ∈ xs ↔ a ∈ ys) (hord : ∀ a ∈ xs, start a ≤ stop a) (ho : o ∈ out) :
    o ∈ out' := by
  have hord' : ∀ a ∈ ys, start a ≤ stop a := fun a ha => hord a ((hmem a).mpr ha)
  have houts : ∀ o ∈ out, start o ≤ stop o := by
    intro o ho
    obtain ⟨chain, hsub, hhull⟩ := h.hull o ho
    exact hhull.ordered fun a ha => hord a (hsub.subset ha)
  obtain ⟨chain, hsub, hhull⟩ := h.hull o ho
  obtain ⟨o', ho', hin⟩ := h'.inside_of_hull hreach hmono hord'
    (fun a ha => (hmem a).mp (hsub.subset ha)) hhull
  obtain ⟨chain', hsub', hhull'⟩ := h'.hull o' ho'
  obtain ⟨o'', ho'', hin'⟩ := h.inside_of_hull hreach hmono hord
    (fun a ha => (hmem a).mpr (hsub'.subset ha)) hhull'
  have heq := eq_of_inside hreach h.apart houts ho ho''
    ⟨le_trans hin'.1 hin.1, le_trans hin.2 hin'.2⟩
  rw [← heq] at hin'
  have hsame := hext o o' (le_antisymm hin'.1 hin.1) (le_antisymm hin.2 hin'.2)
  rw [hsame]
  exact ho'

/-- What spans are joined to depends only on which they are. -/
theorem Joined.unique (h : Joined start stop reach xs out) (h' : Joined start stop reach ys out')
    (hmem : ∀ a, a ∈ xs ↔ a ∈ ys) (hord : ∀ a ∈ xs, start a ≤ stop a) : out = out' := by
  have hord' : ∀ a ∈ ys, start a ≤ stop a := fun a ha => hord a ((hmem a).mpr ha)
  have hiff : ∀ o, o ∈ out ↔ o ∈ out' := fun o =>
    ⟨h.subset hreach hmono hext h' hmem hord,
      h'.subset hreach hmono hext h (fun a => (hmem a).symm) hord'⟩
  have houts : ∀ o ∈ out, start o ≤ stop o := by
    intro o ho
    obtain ⟨chain, hsub, hhull⟩ := h.hull o ho
    exact hhull.ordered fun a ha => hord a (hsub.subset ha)
  have hirrefl : ∀ o ∈ out, ¬ reach (stop o) < start o :=
    fun o ho => not_lt_of_ge (le_trans (houts o ho) (hreach _))
  have hnodup : out.Nodup := h.apart.imp_of_mem fun {a b} ha _ hlt heq =>
    hirrefl a ha (by rw [← heq] at hlt; exact hlt)
  have hnodup' : out'.Nodup := h'.apart.imp_of_mem fun {a b} ha _ hlt heq =>
    hirrefl a ((hiff a).mpr ha) (by rw [← heq] at hlt; exact hlt)
  refine List.Perm.eq_of_pairwise (fun a b ha hb hab hba => ?_) h.apart h'.apart
    ((List.perm_ext_iff_of_nodup hnodup hnodup').mpr hiff)
  -- two spans cannot each come before the other
  refine absurd hba (not_lt_of_ge ?_)
  calc start a ≤ stop a := houts a ha
    _ ≤ reach (stop a) := hreach _
    _ ≤ start b := le_of_lt hab
    _ ≤ stop b := houts b ((hiff b).mpr hb)
    _ ≤ reach (stop b) := hreach _

end Unique

end Clusters
end Lib
end Panops
