import Fix42.Client.Proof.Initiator

/-!
# Backends and their sessions

A session's key is written once, before its backend is started with it (`Keys`), so a lookup made
for a backend is by the key of its own session, and it finds this session iff `FindsOwn`.
-/

namespace Fix42

open Net Trans

/-- The session a login is about to write the key of. -/
def Login.session : Login → Option SessionId
  | .selected i .. | .updated i .. => some i
  | .idle | .identified _ => none

namespace Initiator

variable {s s' : Initiator} {a : Act} {i j : SessionId} {apikey : Bytes}

/-! ## Keys -/

structure Keys (s : Initiator) : Prop where
  unset : ∀ i ∈ s.login.session, (s.session i).apikey = none
  backend : ∀ p ∈ s.backends, (s.session p.1).apikey = some p.2

theorem keys_init (rows : List Row) : Keys (init rows) where
  unset _ h := by cases h
  backend _ h := by cases h

theorem Keys.frame (h : Keys s) (hs : ∀ i, (s'.session i).apikey = (s.session i).apikey)
    (hl : s'.login = s.login) (hb : s'.backends ⊆ s.backends) : Keys s' where
  unset i hi := by
    rw [hs]
    exact h.unset i (hl ▸ hi)
  backend p hp := by
    rw [hs]
    exact h.backend p (hb hp)

theorem Keys.step (h : Keys s) (hs : step s a = some s') : Keys s' := by
  cases step_effect hs with
  | newSession | ignored | erased => exact h.frame (fun _ => rfl) rfl (List.Subset.refl _)
  | rejected => exact h.frame (update_field (·.apikey) rfl) rfl (List.Subset.refl _)
  | selected _ _ hkey _ =>
    refine ⟨fun i hi => ?_, h.backend⟩
    cases hi
    exact hkey
  | updated hl =>
    refine ⟨fun j hj => ?_, fun p hp => ?_⟩
    · rw [apikey_setConnectedTrue]
      exact h.unset j (by rw [hl]; exact hj)
    · rw [apikey_setConnectedTrue]
      exact h.backend p hp
  | @identified i _ _ hl =>
    refine ⟨fun _ h => (by cases h), fun p hp => ?_⟩
    rw [apikey_setFrontend]
    have hne : p.1 ≠ i := by
      rintro hpi
      have hkey := h.backend p hp
      rw [hpi, h.unset _ (by rw [hl]; rfl)] at hkey
      cases hkey
    rw [if_neg hne]
    exact h.backend p hp
  | launched _ hkey =>
    refine ⟨fun _ h => (by cases h), fun p hp => ?_⟩
    rcases List.mem_append.1 hp with hp | hp
    · exact h.backend p hp
    · cases List.mem_singleton.1 hp
      exact hkey
  | closed _ => exact h.frame (fun _ => apikey_close) rfl (List.Subset.refl _)
  | bound _ _ => exact h.frame (update_field (·.apikey) rfl) rfl List.filter_sublist.subset
  | lost _ _ _ => exact h.frame (fun _ => rfl) rfl List.filter_sublist.subset
  | issued _ => exact h.frame (update_field (·.apikey) rfl) rfl (List.Subset.refl _)

/-! ## Lookups -/

/-- Behind a session that has not logged in, `getApiKey` throws. -/
theorem findSession_eq (s : Initiator) (apikey : Bytes) : ∀ l : List SessionId,
    (s.Authenticated apikey l → s.findSession apikey l = s.firstWith apikey l) ∧
      (¬ s.Authenticated apikey l → s.findSession apikey l = .threw)
  | [] => by simp [Authenticated, findSession, firstWith]
  | i :: l => by
    have ih := findSession_eq s apikey l
    rw [findSession]
    cases ha : (s.session i).apikey with
    | none => simp [Authenticated, ha]
    | some a =>
      by_cases hk : a = apikey
      · simp [Authenticated, firstWith, ha, hk]
      · have htail : s.Authenticated apikey (i :: l) ↔ s.Authenticated apikey l := by
          simp [Authenticated, ha, hk]
        have hfirst : s.firstWith apikey (i :: l) = s.firstWith apikey l := by
          simp [firstWith, ha, hk]
        simpa only [htail, hfirst, hk, if_false] using ih

/-- **First match.** The lookup finds the first session with the key, or none, exactly when every
session before it has logged in; otherwise it throws. -/
theorem findSession_first_iff (s : Initiator) (apikey : Bytes) (l : List SessionId) :
    (s.findSession apikey l = s.firstWith apikey l ↔ s.Authenticated apikey l) ∧
      (s.findSession apikey l = .threw ↔ ¬ s.Authenticated apikey l) := by
  obtain ⟨hfirst, hthrew⟩ := findSession_eq s apikey l
  have hne : s.firstWith apikey l ≠ .threw := by
    rw [firstWith]
    split <;> nofun
  refine ⟨⟨fun h => ?_, hfirst⟩, ⟨fun h ha => hne ((hfirst ha).symm.trans h), hthrew⟩⟩
  by_contra hn
  exact hne (h.symm.trans (hthrew hn))

/-- A front-end has connected and not logged in; the session of the one behind it is not found. -/
theorem findSession_threw : ∃ s, Reach step (init Row.twoFree) s ∧
    s.firstWith (ascii "k2") s.sessions = .found 1 ∧
    s.findSession (ascii "k2") s.sessions = .threw := by
  have h : (exec step (fun _ _ => True) (init Row.twoFree) [.newSession, .newSession,
      .login 1 ⟨ascii "k2", ascii "bob"⟩ 0, .proceed, .proceed, .proceed]).map (fun s =>
        (s.firstWith (ascii "k2") s.sessions, s.findSession (ascii "k2") s.sessions)) =
      some (.found 1, .threw) := by
    decide +kernel
  obtain ⟨s, hs, hout⟩ := Option.map_eq_some_iff.1 h
  obtain ⟨hfirst, hfind⟩ := Prod.mk.inj hout
  exact ⟨s, .of_exec .start hs, hfirst, hfind⟩

/-! ## Bindings -/

/-- The lookup made for a backend is by its session's key. -/
theorem Keys.found_iff (h : Keys s) {port : BitVec 32} (hb : s.backends.lookup i = some apikey) :
    s.findSession apikey s.sessions = .found i ↔ s.FindsOwn (.backend i port) := by
  obtain ⟨_, _, hl, -⟩ := List.lookup_eq_some_iff.1 hb
  exact findSession_eq_found (h.backend (i, apikey) (by simp [hl])) s.sessions

theorem own_init (rows : List Row) : OwnSession (init rows) where
  bound _ h := by cases h
  socket _ _ h := by cases h

theorem OwnSession.frame (h : OwnSession s)
    (hs : ∀ i, (s'.session i).socket = (s.session i).socket) (hl : s'.lookups = s.lookups) :
    OwnSession s' where
  bound := hl ▸ h.bound
  socket i j hj := h.socket i j ((hs i).symm.trans hj)

theorem OwnSession.step_iff (h : OwnSession s) (hk : Keys s) (hs : step s a = some s') :
    s'.OwnSession ↔ s.FindsOwn a := by
  cases step_effect hs with
  | newSession | ignored | erased | selected _ _ _ _ | launched _ _ =>
    exact iff_of_true (h.frame (fun _ => rfl) rfl) trivial
  | rejected | updated _ | closed _ | issued _ =>
    exact iff_of_true (h.frame (update_field (·.socket) rfl) rfl) trivial
  | identified _ => exact iff_of_true (h.frame (fun _ => socket_setFrontend) rfl) trivial
  | @bound i j _ _ hb hj =>
    rw [← hk.found_iff hb, hj]
    refine ⟨fun ho => ho.bound (i, .found j) (by simp), fun he => ?_⟩
    refine ⟨fun p hp => ?_, fun k l hl => ?_⟩
    · rcases List.mem_append.1 hp with hp | hp
      · exact h.bound p hp
      · cases List.mem_singleton.1 hp
        exact he
    · cases he
      simp only [session_update] at hl
      split at hl
      · rename_i hki
        cases hl
        exact hki
      · exact h.socket k l hl
  | @lost i _ _ lookup hb hl hne =>
    rw [← hk.found_iff hb, hl]
    exact iff_of_false (fun ho => hne i (ho.bound (i, lookup) (by simp))) (hne i)

/-! ## Runs -/

theorem run_keys {rows : List Row} {C : Initiator → Act → Prop}
    (h : Run step C (init rows) s) : Keys s :=
  h.invariant (keys_init rows) fun _ _ _ hk _ => hk.step

/-- Along the runs in which each backend that authenticates finds its session's key there first, every
backend is bound to the session that started it and to no other, and a step keeps this iff it meets
that condition. -/
theorem own_session {rows : List Row} (h : Run step FindsOwn (init rows) s) :
    s.OwnSession ∧ ∀ a s', step s a = some s' → (s'.OwnSession ↔ s.FindsOwn a) := by
  have ho : s.OwnSession := by
    refine h.invariant_with (J := Keys) (own_init rows) (fun _ => run_keys) ?_
    exact fun s a s' ho hk hc hs => (ho.step_iff hk hs).2 hc
  exact ⟨ho, fun a s' => ho.step_iff (run_keys h)⟩

/-- Both log in, and the backend of the second comes first. -/
theorem own_session_run : ∃ s, exec step FindsOwn (init Row.twoFree) [.newSession, .newSession,
      .login 0 ⟨ascii "k1", ascii "alice"⟩ 0, .proceed, .proceed, .proceed,
      .login 1 ⟨ascii "k2", ascii "bob"⟩ 0, .proceed, .proceed, .proceed,
      .backend 1 4000, .backend 0 4001] = some s ∧
    (s.session 0).socket = some 0 ∧ (s.session 1).socket = some 1 ∧ s.OwnSession := by
  have h : (exec step FindsOwn (init Row.twoFree) [.newSession, .newSession,
      .login 0 ⟨ascii "k1", ascii "alice"⟩ 0, .proceed, .proceed, .proceed,
      .login 1 ⟨ascii "k2", ascii "bob"⟩ 0, .proceed, .proceed, .proceed,
      .backend 1 4000, .backend 0 4001]).map (fun s =>
        ((s.session 0).socket, (s.session 1).socket)) = some (some 0, some 1) := by
    decide +kernel
  obtain ⟨s, hs, hout⟩ := Option.map_eq_some_iff.1 h
  obtain ⟨h0, h1⟩ := Prod.mk.inj hout
  exact ⟨s, hs, h0, h1, (own_session (.of_exec .start hs)).1⟩

/-- Two clients share a key: the backend of the second is bound to the session of the first. -/
theorem not_own_session : ¬ ∀ (rows : List Row) (s : Initiator), Reach step (init rows) s →
    s.OwnSession := by
  intro hall
  have h : (exec step (fun _ _ => True)
      (init [.free 1 "k1" "alice", .free 2 "k1" "bob"])
      [.newSession, .newSession, .login 0 ⟨ascii "k1", ascii "alice"⟩ 0, .proceed, .proceed,
        .proceed, .login 1 ⟨ascii "k1", ascii "bob"⟩ 0, .proceed, .proceed, .proceed,
        .backend 0 4000, .backend 1 4001]).map (fun s => (s.session 0).socket) =
      some (some 1) := by
    decide +kernel
  obtain ⟨s, hs, hout⟩ := Option.map_eq_some_iff.1 h
  exact absurd ((hall _ s (.of_exec .start hs)).socket 0 1 hout) (by decide)

end Initiator

end Fix42
