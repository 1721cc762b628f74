import Mathlib.Data.List.Forall2
import Mathlib.Data.List.GetD
import Mathlib.Data.List.Nodup

/-!
# Calls that may fail

What is known of calls that did not fail: of one after the other (`bind_eq_ok`), of one for each element of
a list (`mapM_eq_ok`), and of a lookup by a key (`find?_key`). Of a list the first that fails is the one
that is reported (`mapM_error`).
-/

namespace Fallible

universe u

variable {α ε : Type*} {β γ : Type u}

theorem bind_eq_ok {x : Except ε β} {f : β → Except ε γ} {c : γ} :
    x >>= f = .ok c ↔ ∃ b, x = .ok b ∧ f b = .ok c := by
  cases x with
  | error e => simp [bind, Except.bind]
  | ok b => simp [bind, Except.bind]

variable {f : α → Except ε β} {l : List α} {r : List β}

theorem mapM_eq_ok : l.mapM f = .ok r ↔ List.Forall₂ (fun x y => f x = .ok y) l r := by
  induction l generalizing r with
  | nil =>
    rw [List.mapM_nil, List.forall₂_nil_left_iff]
    exact ⟨fun h => (Except.ok.inj h).symm, fun h => congrArg Except.ok h.symm⟩
  | cons x l ih =>
    rw [List.mapM_cons, bind_eq_ok, List.forall₂_cons_left_iff]
    constructor
    · rintro ⟨y, hy, h⟩
      obtain ⟨ys, hys, h⟩ := bind_eq_ok.1 h
      exact ⟨y, ys, hy, ih.1 hys, (Except.ok.inj h).symm⟩
    · rintro ⟨y, ys, hy, hys, rfl⟩
      exact ⟨y, hy, bind_eq_ok.2 ⟨ys, ih.2 hys, rfl⟩⟩

theorem mapM_ok {g : α → β} (h : ∀ x ∈ l, f x = .ok (g x)) : l.mapM f = .ok (l.map g) := by
  rw [mapM_eq_ok, List.forall₂_map_right_iff, List.forall₂_same]
  exact h

theorem mapM_error {g : α → β} {l' : List α} {x : α} {e : ε} (h : ∀ y ∈ l, f y = .ok (g y))
    (hx : f x = .error e) : (l ++ x :: l').mapM f = .error e := by
  rw [List.mapM_append, mapM_ok h, List.mapM_cons, hx]
  rfl

theorem mapM_concat {x : α} :
    (l ++ [x]).mapM f = .ok r ↔ ∃ ys y, l.mapM f = .ok ys ∧ f x = .ok y ∧ r = ys ++ [y] := by
  rw [List.mapM_append, bind_eq_ok]
  refine exists_congr fun ys => ?_
  rw [exists_and_left]
  refine and_congr_right fun _ => ?_
  rw [List.mapM_cons, List.mapM_nil, bind_eq_ok]
  constructor
  · intro h
    obtain ⟨z, h, hr⟩ := h
    obtain ⟨y, hy, h⟩ := bind_eq_ok.1 h
    obtain rfl : [y] = z := Except.ok.inj h
    exact ⟨y, hy, (Except.ok.inj hr).symm⟩
  · rintro ⟨y, hy, rfl⟩
    exact ⟨[y], bind_eq_ok.2 ⟨y, hy, rfl⟩, rfl⟩

theorem mapM_getD {d : β} (h : l.mapM f = .ok r) :
    r.length = l.length ∧ ∀ n, (hn : n < l.length) → f l[n] = .ok (r.getD n d) := by
  have hpairs := mapM_eq_ok.1 h
  refine ⟨hpairs.length_eq.symm, fun n hn => ?_⟩
  have hn' : n < r.length := hpairs.length_eq ▸ hn
  rw [List.getD_eq_getElem r d hn']
  exact hpairs.get hn hn'

theorem mem_mapM {y : β} (h : l.mapM f = .ok r) : y ∈ r ↔ ∃ x ∈ l, f x = .ok y := by
  obtain ⟨hlen, hget⟩ := mapM_getD (d := y) h
  rw [List.mem_iff_getElem]
  constructor
  · rintro ⟨n, hn, rfl⟩
    refine ⟨l[n], List.getElem_mem _, ?_⟩
    rw [hget n (hlen ▸ hn), List.getD_eq_getElem _ _ hn]
  · rintro ⟨x, hx, hxy⟩
    obtain ⟨n, hn, rfl⟩ := List.mem_iff_getElem.1 hx
    have hn' : n < r.length := hlen ▸ hn
    refine ⟨n, hn', ?_⟩
    rw [hget n hn, List.getD_eq_getElem _ _ hn'] at hxy
    exact Except.ok.inj hxy

theorem find?_key [DecidableEq β] {g : α → β} {x : α} (hl : (l.map g).Nodup) (hx : x ∈ l) :
    (l.find? fun y => g y = g x) = some x := by
  cases hy : l.find? fun y => g y = g x with
  | none => simpa using List.find?_eq_none.1 hy x hx
  | some y =>
    have hkey : g y = g x := by simpa using List.find?_some hy
    rw [List.inj_on_of_nodup_map hl (List.mem_of_find?_eq_some hy) hx hkey]

end Fallible
