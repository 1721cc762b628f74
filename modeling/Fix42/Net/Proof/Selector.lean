import Mathlib.Data.List.Perm.Subperm
import Fix42.Net.Selector

/-!
# What the calls on the selector keep

`Tracks n gone`: the descriptors of open sockets are distinct, and every descriptor of the interest
set, but for that of `gone`, has the open socket registered last under it as its entry. One lemma for
each call; `Tracks.client` needs that the map has nothing left under the descriptor, `stale_client`
says what happens otherwise. `Tracks.pull`: with nothing gone, `pull` returns.
-/

namespace Fix42

theorem lowestFree_not_mem (used : List Nat) : lowestFree used ∉ used := by
  unfold lowestFree
  cases h : (List.range (used.length + 1)).find? fun f => f ∉ used with
  | some f => simpa using List.find?_some h
  | none =>
    have hall : List.range (used.length + 1) ⊆ used := fun f hf => by
      simpa using List.find?_eq_none.1 h f hf
    have := (List.nodup_range.subperm hall).length_le
    rw [List.length_range] at this
    omega

namespace Selector

variable {n : Selector} {c d : SocketId} {f : Nat} {gone : Option SocketId}

theorem fd_lt (h : n.fd c = some f) : c < n.fds.length := by
  by_contra hc
  rw [fd, List.getElem?_eq_none (Nat.le_of_not_lt hc)] at h
  cases h

theorem mem_used (h : n.fd c = some f) : f ∈ n.used := by
  refine List.mem_append_right _ (List.mem_filterMap.2 ⟨some f, ?_, rfl⟩)
  have hc := fd_lt h
  rw [fd, List.getElem?_eq_getElem hc] at h
  have : n.fds[c] = some f := h
  exact this ▸ List.getElem_mem hc

/-! ## The calls -/

theorem fd_accept (n : Selector) (d : SocketId) : n.accept.2.fd d =
    if d = n.fds.length then some (lowestFree n.used) else n.fd d := by
  rcases lt_trichotomy d n.fds.length with h | rfl | h
  · rw [if_neg h.ne, accept, fd, fd, List.getElem?_append_left h]
  · simp [accept, fd]
  · rw [if_neg h.ne', accept, fd, fd, List.getElem?_eq_none h.le,
      List.getElem?_eq_none (by simpa using Nat.succ_le_of_lt h)]

theorem fd_close (n : Selector) (c d : SocketId) :
    (n.close c).fd d = if d = c then none else n.fd d := by
  unfold close
  split
  · rename_i h
    by_cases he : d = c
    · rw [if_pos he, he, h]
    · rw [if_neg he]
  · rename_i f h
    simp only [fd, List.getElem?_set]
    have hc := fd_lt h
    by_cases he : c = d
    · simp [he, he ▸ hc]
    · simp [he, Ne.symm he]

theorem fd_close_eq_some : (n.close c).fd d = some f ↔ d ≠ c ∧ n.fd d = some f := by
  rw [fd_close]
  split <;> simp [*]

@[simp] theorem fd_erase (n : Selector) (c d : SocketId) : (n.erase c).fd d = n.fd d := rfl

@[simp] theorem fd_client (n : Selector) (c d : SocketId) : (n.client c).2.fd d = n.fd d := by
  unfold client
  split
  · rfl
  · split <;> rfl

@[simp] theorem length_close (n : Selector) (c : SocketId) :
    (n.close c).fds.length = n.fds.length := by
  unfold close
  split <;> simp

@[simp] theorem length_client (n : Selector) (c : SocketId) :
    (n.client c).2.fds.length = n.fds.length := by
  unfold client
  split
  · rfl
  · split <;> rfl

@[simp] theorem length_accept (n : Selector) : n.accept.2.fds.length = n.fds.length + 1 := by
  simp [accept]

theorem mem_interest_close (h : f ∈ (n.close c).interest) :
    f ∈ n.interest ∧ n.fd c ≠ some f := by
  unfold close at h
  split at h
  · rename_i hc
    exact ⟨h, by simp [hc]⟩
  · rename_i g hc
    have := List.mem_filter.1 h
    refine ⟨this.1, fun he => ?_⟩
    rw [hc] at he
    cases he
    simp at this

@[simp] theorem clients_close (n : Selector) (c : SocketId) : (n.close c).clients = n.clients := by
  unfold close
  split <;> rfl

@[simp] theorem last_close (n : Selector) (c : SocketId) : (n.close c).last = n.last := by
  unfold close
  split <;> rfl

@[simp] theorem erased_close (n : Selector) (c : SocketId) : (n.close c).erased = n.erased := by
  unfold close
  split <;> rfl

theorem clients_erase (n : Selector) (c : SocketId) (f : Nat) :
    (n.erase c).clients f = (n.clients f).filter fun d => n.fd c ≠ n.fd d := rfl

/-- The entry of an open socket of another descriptor stays. -/
theorem clients_erase_of_ne (h : n.clients f = some d) (hd : n.fd c ≠ n.fd d) :
    (n.erase c).clients f = some d := by
  rw [clients_erase, h]
  simp [Option.filter, hd]

/-- `client` does nothing or adds a descriptor. -/
theorem client_cases (n : Selector) (c : SocketId) : (n.client c).2 = n ∨
    ∃ f, n.fd c = some f ∧ f ∉ n.interest ∧ (n.client c).2 = { n with
      interest := f :: n.interest
      clients := emplace n.clients f c
      last := Function.update n.last f (some c) } := by
  unfold client
  cases h : n.fd c with
  | none => exact .inl rfl
  | some f =>
    by_cases hf : f ∈ n.interest
    · simp [hf]
    · exact .inr ⟨f, rfl, hf, by simp [hf]⟩

/-! ## The invariant -/

structure Tracks (n : Selector) (gone : Option SocketId) : Prop where
  fds : ∀ c d f, n.fd c = some f → n.fd d = some f → c = d
  entry : ∀ f ∈ n.interest, (∃ c ∈ gone, n.fd c = some f) ∨
    ∃ c, n.clients f = some c ∧ n.fd c = some f ∧ n.last f = some c
  erased : ∀ c ∈ n.erased, c < n.fds.length ∧ (n.fd c = none ∨ gone = some c)

theorem tracks_new (reserved : List Nat) : Tracks (new reserved) none where
  fds c d f h := by simp [new, fd] at h
  entry f hf := by cases hf
  erased c hc := by cases hc

namespace Tracks

theorem entry_none (h : Tracks n none) (hf : f ∈ n.interest) :
    ∃ c, n.clients f = some c ∧ n.fd c = some f ∧ n.last f = some c := by
  rcases h.entry f hf with ⟨c, hg, -⟩ | hentry
  · cases hg
  · exact hentry

theorem accept (h : Tracks n gone) : Tracks n.accept.2 gone := by
  have hnew : ∀ {c}, c < n.fds.length → n.accept.2.fd c = n.fd c := fun hc => by
    rw [fd_accept, if_neg hc.ne]
  have hfree : ∀ c, n.fd c ≠ some (lowestFree n.used) := fun c hc =>
    lowestFree_not_mem n.used (mem_used hc)
  refine ⟨fun c d f hc hd => ?_, fun f hf => ?_, fun c hc => ?_⟩
  · rw [fd_accept] at hc hd
    split at hc <;> split at hd
    · simp_all
    · cases hc
      exact absurd hd (hfree d)
    · cases hd
      exact absurd hc (hfree c)
    · exact h.fds c d f hc hd
  · rcases h.entry f hf with ⟨c, hg, hc⟩ | ⟨c, he, hc, hl⟩
    · exact .inl ⟨c, hg, (hnew (fd_lt hc)).trans hc⟩
    · exact .inr ⟨c, he, (hnew (fd_lt hc)).trans hc, hl⟩
  · obtain ⟨hlt, hor⟩ := h.erased c hc
    refine ⟨by rw [length_accept]; exact Nat.lt_succ_of_lt hlt, hor.imp_left fun hn => ?_⟩
    rw [hnew hlt, hn]

theorem close (h : Tracks n gone) (c : SocketId) : Tracks (n.close c) gone := by
  refine ⟨fun d e f hd he => ?_, fun f hf => ?_, fun d hd => ?_⟩
  · exact h.fds d e f (fd_close_eq_some.1 hd).2 (fd_close_eq_some.1 he).2
  · obtain ⟨hf, hne⟩ := mem_interest_close hf
    have hkeep : ∀ d, n.fd d = some f → (n.close c).fd d = some f := fun d hd =>
      fd_close_eq_some.2 ⟨fun he => hne (by rw [← he, hd]), hd⟩
    rcases h.entry f hf with ⟨d, hg, hd⟩ | ⟨d, he, hd, hl⟩
    · exact .inl ⟨d, hg, hkeep d hd⟩
    · exact .inr ⟨d, by rwa [clients_close], hkeep d hd, by rwa [last_close]⟩
  · rw [erased_close] at hd
    rw [length_close, fd_close]
    refine ⟨(h.erased d hd).1, ?_⟩
    split
    · exact .inl rfl
    · exact (h.erased d hd).2

/-- Once closed, an erased socket is not gone but closed. -/
theorem close_gone (h : Tracks n (some c)) : Tracks (n.close c) none := by
  obtain ⟨hfds, hentry, herased⟩ := h.close c
  refine ⟨hfds, fun f hf => ?_, fun d hd => ?_⟩
  · rcases hentry f hf with ⟨d, hg, hd⟩ | hrest
    · cases hg
      simp [fd_close] at hd
    · exact .inr hrest
  · refine ⟨(herased d hd).1, .inl ?_⟩
    rcases (herased d hd).2 with hn | hg
    · exact hn
    · cases hg
      simp [fd_close]

theorem erase_closed (h : Tracks n gone) (hc : n.fd c = none) (hlt : c < n.fds.length) :
    Tracks (n.erase c) gone := by
  refine ⟨h.fds, fun f hf => (h.entry f hf).imp_right ?_, fun d hd => ?_⟩
  · rintro ⟨d, he, hd, hl⟩
    exact ⟨d, clients_erase_of_ne he (by rw [hc, hd]; simp), hd, hl⟩
  · rcases List.mem_cons.1 hd with rfl | hd
    · exact ⟨hlt, .inl hc⟩
    · exact h.erased d hd

theorem erase_gone (h : Tracks n none) (hlt : c < n.fds.length) :
    Tracks (n.erase c) (some c) := by
  refine ⟨h.fds, fun f hf => ?_, fun d hd => ?_⟩
  · obtain ⟨d, he, hd, hl⟩ := h.entry_none hf
    by_cases hcd : n.fd c = n.fd d
    · have : c = d := h.fds c d f (hcd.trans hd) hd
      subst this
      exact .inl ⟨c, rfl, hd⟩
    · exact .inr ⟨d, clients_erase_of_ne he hcd, hd, hl⟩
  · rcases List.mem_cons.1 hd with rfl | hd
    · exact ⟨hlt, .inr rfl⟩
    · exact ⟨(h.erased d hd).1, .inl ((h.erased d hd).2.resolve_right fun hg => by cases hg)⟩

/-- Registering under a descriptor the map has nothing left for. -/
theorem client (h : Tracks n gone) (hfresh : ∀ f ∈ n.fd c, n.clients f = none) :
    Tracks (n.client c).2 gone := by
  rcases client_cases n c with hsame | ⟨f, hc, hf, hnew⟩
  · rwa [hsame]
  · rw [hnew]
    refine ⟨h.fds, fun g hg => ?_, h.erased⟩
    have hnone : n.clients f = none := hfresh f hc
    have hem : emplace n.clients f c = Function.update n.clients f (some c) :=
      if_neg (by simp [hnone])
    rcases List.mem_cons.1 hg with rfl | hg
    · exact .inr ⟨c, by simp [hem], hc, by simp⟩
    · have hne : g ≠ f := fun he => hf (he ▸ hg)
      refine (h.entry g hg).imp_right ?_
      rintro ⟨d, he, hd, hl⟩
      exact ⟨d, by simpa [hem, hne] using he, hd, by simpa [hne] using hl⟩

/-- `pull` finds every reported descriptor, and gives open sockets that were not erased. -/
theorem pull (h : Tracks n none) : ∀ reported : List Nat, (∀ f ∈ reported, f ∈ n.interest) →
    ∃ cs, n.pull reported = .ok cs ∧ ∀ c ∈ cs, c ∉ n.erased ∧ c < n.fds.length
  | [], _ => ⟨[], rfl, fun _ hc => by cases hc⟩
  | f :: reported, hrep => by
    rw [List.forall_mem_cons] at hrep
    obtain ⟨cs, hcs, hall⟩ := h.pull reported hrep.2
    obtain ⟨c, he, hc, -⟩ := h.entry_none hrep.1
    refine ⟨c :: cs, ?_, List.forall_mem_cons.2 ⟨⟨fun hm => ?_, fd_lt hc⟩, hall⟩⟩
    · simp only [Selector.pull] at hcs
      simp [Selector.pull, List.mapM_cons, he, hcs, bind, Except.bind, pure, Except.pure]
    · rcases (h.erased c hm).2 with hn | hg
      · rw [hn] at hc
        cases hc
      · cases hg

end Tracks

/-- An entry left under the descriptor hides the socket that is registered. -/
theorem stale_client (hc : n.fd c = some f) (hf : f ∉ n.interest) (hs : n.clients f = some d) :
    f ∈ (n.client c).2.interest ∧ (n.client c).2.clients f = some d ∧
      (n.client c).2.last f = some c := by
  simp [client, hc, hf, emplace, hs]

end Selector

end Fix42
