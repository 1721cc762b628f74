import Fix42.Net.Server
import Fix42.Net.Proof.Selector

/-!
# The selector in the server

`NetServer.registered_iff`: in every run that registers a socket only when the map has nothing left
under its descriptor (`Fresh`), the selector is `Registered`; the first registration that finds
something left ends that. `not_registered`: without the condition a client that reconnects before the
removal thread has erased the socket it closed leaves a descriptor without an entry, and `pull`
throws.
-/

namespace Fix42

namespace NetServer

/-! ## The invariant -/

/-- The socket the input thread has erased and not closed yet. -/
def gone (s : NetServer) : Option SocketId :=
  match s.input with
  | .closing c _ => some c
  | _ => none

/-- The sockets the input thread has in hand. -/
def inHand : InputLoop → List SocketId
  | .accepted c | .stored c => [c]
  | .handle cs => cs
  | .unknown c cs | .closing c cs | .found c cs => c :: cs
  | .accept | .pull | .failed _ => []

structure Inv (s : NetServer) : Prop where
  tracks : s.selector.Tracks s.gone
  /-- a socket is in the map only after its registration -/
  listed : ∀ f c, s.selector.clients f = some c → c < s.selector.fds.length ∧
    s.input ≠ .accepted c ∧ s.input ≠ .stored c
  hand : ∀ c ∈ inHand s.input, c < s.selector.fds.length
  queued : ∀ c ∈ s.tasks, c < s.selector.fds.length
  removing : ∀ c, s.remove = .close c → c < s.selector.fds.length
  erasing : ∀ c, s.remove = .erase c → c < s.selector.fds.length ∧ s.selector.fd c = none
  input : ∀ f, s.input ≠ .failed f

theorem inv_init (reserved : List Nat) : (init reserved).Inv where
  tracks := Selector.tracks_new reserved
  listed f c h := by cases h
  hand c h := by cases h
  queued c h := by cases h
  removing c h := by cases h
  erasing c h := by cases h
  input f h := by cases h

/-! ## The steps -/

theorem inv_accept {s s' : NetServer} {pending : Bool} (h : s.Inv)
    (hs : step s (.accept pending) = some s') : s'.Inv := by
  simp only [step] at hs
  split at hs
  · rename_i hi
    have htracks := h.tracks
    simp only [gone, hi] at htracks
    split at hs
    · cases hs
      refine ⟨htracks.accept, fun f c hc => ?_, fun c hc => ?_, fun c hc => ?_, fun c hc => ?_,
        fun c hc => ?_, fun f hf => by cases hf⟩
      · have hlt := (h.listed f c hc).1
        refine ⟨Nat.lt_of_lt_of_eq (Nat.lt_succ_of_lt hlt) s.selector.length_accept.symm,
          fun he => ?_, fun he => by cases he⟩
        cases he
        exact absurd hlt (lt_irrefl _)
      · rw [List.mem_singleton.1 hc, Selector.length_accept]
        exact Nat.lt_succ_self _
      · exact Nat.lt_of_lt_of_eq (Nat.lt_succ_of_lt (h.queued c hc)) s.selector.length_accept.symm
      · exact Nat.lt_of_lt_of_eq (Nat.lt_succ_of_lt (h.removing c hc))
          s.selector.length_accept.symm
      · obtain ⟨hlt, hn⟩ := h.erasing c hc
        refine ⟨Nat.lt_of_lt_of_eq (Nat.lt_succ_of_lt hlt) s.selector.length_accept.symm, ?_⟩
        exact (s.selector.fd_accept c).trans (by rw [if_neg hlt.ne, hn])
    · cases hs
      exact ⟨htracks, fun f c hc => ⟨(h.listed f c hc).1, by simp, by simp⟩, by simp [inHand],
        h.queued, h.removing, h.erasing, by simp⟩
  · cases hs

/-- Closing a socket, whoever does it. -/
theorem Inv.close {s : NetServer} (h : s.Inv) (c : SocketId) :
    ({ s with selector := s.selector.close c } : NetServer).Inv where
  tracks := h.tracks.close c
  listed f d hd := by
    dsimp only at hd ⊢
    rw [Selector.clients_close] at hd
    rw [Selector.length_close]
    exact h.listed f d hd
  hand d hd := by
    dsimp only
    rw [Selector.length_close]
    exact h.hand d hd
  queued d hd := by
    dsimp only
    rw [Selector.length_close]
    exact h.queued d hd
  removing d hd := by
    dsimp only
    rw [Selector.length_close]
    exact h.removing d hd
  erasing d hd := by
    dsimp only
    rw [Selector.length_close, Selector.fd_close]
    refine ⟨(h.erasing d hd).1, ?_⟩
    split
    · rfl
    · exact (h.erasing d hd).2
  input := h.input

/-- What `erase` leaves in the map was there. -/
theorem Inv.listed_erase {s : NetServer} (h : s.Inv) {c d : SocketId} {f : Nat}
    (hd : (s.selector.erase c).clients f = some d) : d < s.selector.fds.length ∧
      s.input ≠ .accepted d ∧ s.input ≠ .stored d := by
  rw [Selector.clients_erase] at hd
  exact h.listed f d (Option.filter_eq_some_iff.1 hd).1

theorem inv_input {s s' : NetServer} (h : s.Inv) (hc : s.Fresh .input)
    (hs : step s .input = some s') : s'.Inv := by
  have htracks := h.tracks
  have hlisted := h.listed
  have hhand := h.hand
  simp only [step, stepInput] at hs
  cases hi : s.input with
  | accept | pull | failed _ | found _ _ => simp [hi] at hs
  | accepted c =>
    simp only [hi, Option.some.injEq] at hs
    simp only [gone, hi] at htracks
    subst hs
    refine ⟨htracks, fun f d hd => ⟨(h.listed f d hd).1, by simp, fun he => ?_⟩, ?_, h.queued,
      h.removing, h.erasing, by simp⟩
    · cases he
      exact (h.listed f c hd).2.1 hi
    · simpa [hi, inHand] using hhand
  | stored c =>
    simp only [hi, Option.some.injEq] at hs
    simp only [gone, hi] at htracks
    simp only [Fresh, hi] at hc
    subst hs
    refine ⟨htracks.client hc, fun f d hd => ⟨?_, by simp, by simp⟩, by simp [inHand], ?_, ?_, ?_,
      by simp⟩
    · dsimp only at hd ⊢
      rw [Selector.length_client]
      rcases s.selector.client_cases c with hsame | ⟨g, hg, -, hnew⟩
      · rw [hsame] at hd
        exact (h.listed f d hd).1
      · rw [hnew] at hd
        dsimp only [emplace] at hd
        split at hd
        · exact (h.listed f d hd).1
        · by_cases hf : f = g
          · subst hf
            rw [Function.update_self] at hd
            cases hd
            exact Selector.fd_lt hg
          · rw [Function.update_of_ne hf] at hd
            exact (h.listed f d hd).1
    · simpa using h.queued
    · simpa using h.removing
    · simpa using h.erasing
  | handle cs =>
    simp only [gone, hi] at htracks
    cases cs with
    | nil =>
      simp only [hi, Option.some.injEq] at hs
      subst hs
      exact ⟨htracks, fun f d hd => ⟨(h.listed f d hd).1, by simp, by simp⟩, by simp [inHand],
        h.queued, h.removing, h.erasing, by simp⟩
    | cons c cs =>
      simp only [hi, Option.some.injEq] at hs
      simp only [hi, inHand] at hhand
      subst hs
      by_cases hm : c ∈ s.store
      · simp only [if_pos hm]
        exact ⟨htracks, fun f d hd => ⟨(h.listed f d hd).1, by simp, by simp⟩, hhand, h.queued,
          h.removing, h.erasing, by simp⟩
      · simp only [if_neg hm]
        exact ⟨htracks, fun f d hd => ⟨(h.listed f d hd).1, by simp, by simp⟩, hhand, h.queued,
          h.removing, h.erasing, by simp⟩
  | unknown c cs =>
    simp only [hi, Option.some.injEq] at hs
    simp only [gone, hi] at htracks
    simp only [hi, inHand] at hhand
    subst hs
    exact ⟨htracks.erase_gone (hhand c List.mem_cons_self),
      fun f d hd => ⟨(h.listed_erase hd).1, by simp, by simp⟩, hhand, h.queued, h.removing,
      h.erasing, by simp⟩
  | closing c cs =>
    simp only [hi, Option.some.injEq] at hs
    simp only [gone, hi] at htracks
    simp only [hi, inHand] at hhand
    subst hs
    have hclose := h.close c
    refine ⟨htracks.close_gone, fun f d hd => ⟨(hclose.listed f d hd).1, by simp, by simp⟩,
      fun d hd => ?_, hclose.queued, hclose.removing, hclose.erasing, by simp⟩
    dsimp only
    rw [Selector.length_close]
    exact hhand d (List.mem_cons_of_mem c hd)

theorem inv_pull {s s' : NetServer} {reported : List Nat} (h : s.Inv)
    (hs : step s (.pull reported) = some s') : s'.Inv := by
  simp only [step] at hs
  split at hs
  · rename_i hg
    obtain ⟨hi, hrep, -⟩ := hg
    have htracks := h.tracks
    simp only [gone, hi] at htracks
    obtain ⟨cs, hcs, hall⟩ := htracks.pull reported hrep
    rw [hcs] at hs
    cases hs
    exact ⟨htracks, fun f d hd => ⟨(h.listed f d hd).1, by simp, by simp⟩,
      fun c hc => (hall c hc).2, h.queued, h.removing, h.erasing, by simp⟩
  · cases hs

theorem inv_process {s s' : NetServer} {disconnect : Bool} (h : s.Inv)
    (hs : step s (.process disconnect) = some s') : s'.Inv := by
  simp only [step] at hs
  split at hs
  · rename_i c cs hi
    have htracks := h.tracks
    have hhand := h.hand
    simp only [gone, hi] at htracks
    simp only [hi, inHand] at hhand
    have hrest : ∀ d ∈ cs, d < s.selector.fds.length := fun d hd =>
      hhand d (List.mem_cons_of_mem c hd)
    split at hs
    · cases hs
      refine ⟨htracks, fun f d hd => ⟨(h.listed f d hd).1, by simp, by simp⟩, hrest,
        fun d hd => ?_, h.removing, h.erasing, by simp⟩
      rcases List.mem_append.1 hd with hd | hd
      · exact h.queued d hd
      · rw [List.mem_singleton.1 hd]
        exact hhand c List.mem_cons_self
    · cases hs
      exact ⟨htracks, fun f d hd => ⟨(h.listed f d hd).1, by simp, by simp⟩, hrest, h.queued,
        h.removing, h.erasing, by simp⟩
  · cases hs

theorem inv_remove {s s' : NetServer} (h : s.Inv) (hs : step s .remove = some s') : s'.Inv := by
  simp only [step, stepRemove] at hs
  split at hs
  · split at hs
    · cases hs
    · rename_i c tasks htasks
      cases hs
      have hq := h.queued
      rw [htasks] at hq
      refine ⟨h.tracks, h.listed, h.hand, fun d hd => hq d (List.mem_cons_of_mem c hd),
        fun d hd => ?_, (fun d hd => by cases hd), h.input⟩
      cases hd
      exact hq c List.mem_cons_self
  · rename_i c hr
    cases hs
    have hclose := h.close c
    refine ⟨hclose.tracks, hclose.listed, hclose.hand, hclose.queued, (fun d hd => by cases hd),
      fun d hd => ?_, hclose.input⟩
    cases hd
    refine ⟨?_, ?_⟩
    · dsimp only
      rw [Selector.length_close]
      exact h.removing c hr
    · exact (s.selector.fd_close c c).trans (if_pos rfl)
  · rename_i c hr
    cases hs
    obtain ⟨hlt, hn⟩ := h.erasing c hr
    exact ⟨h.tracks.erase_closed hn hlt, fun f d hd => h.listed_erase hd, h.hand, h.queued,
      (fun d hd => by cases hd), (fun d hd => by cases hd), h.input⟩

theorem inv_step {s s' : NetServer} {act : Act} (h : s.Inv) (hc : s.Fresh act)
    (hs : step s act = some s') : s'.Inv := by
  cases act with
  | accept pending => exact inv_accept h hs
  | input => exact inv_input h hc hs
  | pull reported => exact inv_pull h hs
  | process disconnect => exact inv_process h hs
  | closeClient c =>
    simp only [step] at hs
    split at hs
    · cases hs
      exact h.close c
    · cases hs
  | removeClient c =>
    simp only [step] at hs
    split at hs
    · rename_i hk
      cases hs
      refine ⟨h.tracks, h.listed, h.hand, fun d hd => ?_, h.removing, h.erasing, h.input⟩
      rcases List.mem_append.1 hd with hd | hd
      · exact h.queued d hd
      · rw [List.mem_singleton.1 hd]
        exact hk.1
    · cases hs
  | remove => exact inv_remove h hs

/-! ## The runs -/

theorem Inv.registered {s : NetServer} (h : s.Inv) : s.Registered where
  entry hi f hf := by
    refine (h.tracks.entry f hf).resolve_left ?_
    rintro ⟨c, hg, -⟩
    unfold gone at hg
    split at hg
    · rename_i c' cs heq
      exact hi c' cs heq
    · cases hg
  pull hi reported hrep := by
    have htracks := h.tracks
    simp only [gone, hi] at htracks
    obtain ⟨cs, hcs, hall⟩ := htracks.pull reported hrep
    exact ⟨cs, hcs, fun c hc => (hall c hc).1⟩
  input := h.input

/-- A registration that finds an entry left under its descriptor. -/
theorem Inv.stale {s s' : NetServer} {act : Act} (h : s.Inv) (hc : ¬ s.Fresh act)
    (hs : step s act = some s') : ¬ s'.Registered := by
  cases act with
  | input =>
    simp only [Fresh] at hc
    split at hc
    · rename_i c hi
      simp only [step, stepInput, hi, Option.some.injEq] at hs
      subst hs
      push Not at hc
      obtain ⟨f, hf, hd⟩ := hc
      obtain ⟨d, hd⟩ := Option.ne_none_iff_exists'.1 hd
      have hne : d ≠ c := fun he => (h.listed f d hd).2.2 (he ▸ hi)
      have htracks := h.tracks
      simp only [gone, hi] at htracks
      have hnot : f ∉ s.selector.interest := fun hm => by
        obtain ⟨e, he, hfe, -⟩ := htracks.entry_none hm
        have : e = c := htracks.fds e c f hfe hf
        exact (h.listed f e he).2.2 (this ▸ hi)
      obtain ⟨hm, hcl, hl⟩ := Selector.stale_client hf hnot hd
      intro hreg
      obtain ⟨e, he, -, hle⟩ := hreg.entry (by simp) f hm
      dsimp only at he hle
      rw [hcl] at he
      rw [hl] at hle
      cases he
      cases hle
      exact hne rfl
    · exact absurd trivial hc
  | _ => exact absurd trivial hc

end NetServer

end Fix42
