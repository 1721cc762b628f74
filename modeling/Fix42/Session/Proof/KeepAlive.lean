import Mathlib.Tactic.ByContra
import Fix42.Session.KeepAlive
import Fix42.Session.Proof.HeartBeat

/-!
# Who is kept and who is not

A client that runs is never removed, if the messages that test it take no longer than half the
elapsing time each, and only then is that sure (`keep_alive`). A client of which nothing is heard is
removed at the second pass that comes too late for it (`silent_client_removed`).
-/

namespace Fix42

open HeartBeat

/-! ## What the server's handlers send -/

namespace HeartBeatClient

variable {c : HeartBeatClient} {now : Int}

theorem handle_test (hin : c.loggedIn = true) (hdc : c.shouldDc = false)
    (hlate : seconds c.info.elapsing < now - c.info.since) (hreq : c.info.testRequest = false) :
    c.handle now = { c with
      info := { c.info with since := now, testRequest := true, testValue := some (formatTime now) }
      events := c.events ++ [.append now (.testRequest (formatTime now))] } := by
  simp [handle, hin, hdc, hlate, hreq, append, note]

theorem handle_remove (hin : c.loggedIn = true) (hdc : c.shouldDc = false)
    (hlate : seconds c.info.elapsing < now - c.info.since) (hreq : c.info.testRequest = true) :
    c.handle now = c.removeClient := by
  simp [handle, hin, hdc, hlate, hreq]

/-- A pass does nothing, sends a TestRequest, or asks for the removal. -/
theorem handle_cases (c : HeartBeatClient) (now : Int) :
    c.handle now = c ∧
        (c.loggedIn = true → c.shouldDc = false → now - c.info.since ≤ seconds c.info.elapsing) ∨
      c.loggedIn = true ∧ c.shouldDc = false ∧ seconds c.info.elapsing < now - c.info.since ∧
        (c.info.testRequest = false ∨ c.info.testRequest = true) := by
  by_cases hlate : c.loggedIn = true ∧ c.shouldDc = false ∧
      seconds c.info.elapsing < now - c.info.since
  · exact .inr ⟨hlate.1, hlate.2.1, hlate.2.2, (Bool.eq_false_or_eq_true _).symm⟩
  · refine .inl ⟨?_, fun hin hdc => by
      by_contra hlt
      exact hlate ⟨hin, hdc, Int.not_le.1 hlt⟩⟩
    unfold handle
    split
    · rfl
    · rename_i hskip
      simp only [Bool.or_eq_true, Bool.not_eq_true', not_or, Bool.not_eq_true,
        Bool.not_eq_false] at hskip
      rw [if_neg fun hlt => hlate ⟨hskip.2, hskip.1, hlt⟩]

theorem sentSince_append {c c' : HeartBeatClient} {es : List ClientEvent}
    (h : c'.events = c.events ++ es) : c.sentSince c' = es.filterMap ClientEvent.sent? := by
  unfold sentSince
  rw [h, List.drop_left]

/-- The processing of a HeartBeat leaves the test as it is, unless it has its id; and then it is over. -/
theorem processHeartBeat_cases (c : HeartBeatClient) (receiveTime : Int) (id : Option String) :
    ∃ es, (c.processHeartBeat receiveTime (.ok id)).events = c.events ++ es ∧ .removeClient ∉ es ∧
      (c.processHeartBeat receiveTime (.ok id)).info.elapsing = c.info.elapsing ∧
      ((c.processHeartBeat receiveTime (.ok id)).info.testRequest = false ∨
        (c.processHeartBeat receiveTime (.ok id)).info = c.info ∧
          ∀ v, id = some v → c.info.testValue ≠ some v) := by
  cases hreq : c.info.testRequest with
  | false =>
    exact ⟨[.processed id, .append receiveTime (.heartBeat none)],
      by simp [processHeartBeat, hreq, setSince], by simp, by simp [processHeartBeat, hreq, setSince],
      .inl (by simp [processHeartBeat, hreq, setSince])⟩
  | true =>
    cases hval : c.info.testValue with
    | none =>
      exact ⟨[.processed id], by simp [processHeartBeat, hreq, hval], by simp,
        by simp [processHeartBeat, hreq, hval],
        .inr ⟨by simp [processHeartBeat, hreq, hval], fun v _ => by simp⟩⟩
    | some value =>
      cases id with
      | none =>
        exact ⟨[.processed none, .append receiveTime (.reject
            (testReject .requiredTagMissing "Missing Test request Id"))],
          by simp [processHeartBeat, hreq, hval], by simp, by simp [processHeartBeat, hreq, hval],
          .inr ⟨by simp [processHeartBeat, hreq, hval], fun v hv => by simp at hv⟩⟩
      | some id =>
        by_cases heq : value = id
        · exact ⟨[.processed (some id), .append receiveTime (.heartBeat none)],
            by simp [processHeartBeat, hreq, hval, heq, setSince], by simp,
            by simp [processHeartBeat, hreq, hval, heq, setSince],
            .inl (by simp [processHeartBeat, hreq, hval, heq, setSince])⟩
        · refine ⟨[.processed (some id), .append receiveTime (.reject
              (testReject .valueOutOfRange "Incorrect Test Value"))],
            by simp [processHeartBeat, hreq, hval, heq], by simp,
            by simp [processHeartBeat, hreq, hval, heq],
            .inr ⟨by simp [processHeartBeat, hreq, hval, heq], fun v hv => ?_⟩⟩
          cases hv
          simpa using heq

end HeartBeatClient

namespace KeepAlive

variable {delay now : Int} {elapsing : Nat} {s s' : KeepAlive}

theorem mem_eraseIdx_of_ne {α : Type*} {l : List α} {x : α} {k : Nat} (hx : x ∈ l)
    (hne : ∀ y ∈ l[k]?, y ≠ x) : x ∈ l.eraseIdx k := by
  obtain ⟨i, hi⟩ := List.getElem?_of_mem hx
  refine List.mem_eraseIdx_iff_getElem?.2 ⟨i, fun hik => ?_, hi⟩
  exact hne x (hik ▸ hi) rfl

/-! ## A client that runs -/

/-- While the client is tested, the TestRequest is on its way, or its answer. -/
structure Kept (elapsing : Nat) (delay : Int) (s : KeepAlive) : Prop where
  removed : .removeClient ∉ s.server.events
  elapsing : s.server.info.elapsing = elapsing
  tested : s.server.info.testRequest = true → ∃ v, s.server.info.testValue = some v ∧
    ((s.server.info.since, .testRequest v) ∈ s.toClient ∨
      ∃ t, (t, .heartBeat (some v)) ∈ s.toServer ∧ t - s.server.info.since ≤ delay)

/-- Steps that keep the server's record, and lose neither the TestRequest nor its answer. -/
theorem Kept.of_server (h : Kept elapsing delay s) (es : List ClientEvent)
    (events : s'.server.events = s.server.events ++ es) (hes : .removeClient ∉ es)
    (info : s'.server.info = s.server.info)
    (htest : ∀ v, s.server.info.testValue = some v → (s.server.info.since, .testRequest v) ∈ s.toClient →
      (s.server.info.since, .testRequest v) ∈ s'.toClient ∨
        ∃ t, (t, .heartBeat (some v)) ∈ s'.toServer ∧ t - s.server.info.since ≤ delay)
    (hanswer : ∀ v t, s.server.info.testValue = some v → (t, .heartBeat (some v)) ∈ s.toServer →
      (t, .heartBeat (some v)) ∈ s'.toServer) : Kept elapsing delay s' where
  removed := by
    rw [events, List.mem_append]
    exact not_or.2 ⟨h.removed, hes⟩
  elapsing := info ▸ h.elapsing
  tested hreq := by
    rw [info] at hreq ⊢
    obtain ⟨v, hv, hm | ⟨t, hm, ht⟩⟩ := h.tested hreq
    · exact ⟨v, hv, htest v hv hm⟩
    · exact ⟨v, hv, .inr ⟨t, hanswer v t hv hm, ht⟩⟩

theorem Kept.serverPass (hd : 2 * delay ≤ seconds elapsing) (h : Kept elapsing delay s)
    (hp : Prompt delay s (now, .serverPass)) :
    Kept elapsing delay (s.setServer now (s.server.handle now)) := by
  rcases HeartBeatClient.handle_cases s.server now with ⟨heq, -⟩ | ⟨hin, hdc, hlate, hreq | hreq⟩
  · rw [heq]
    exact h.of_server [] (List.append_nil _).symm List.not_mem_nil rfl
      (fun v _ hm => .inl (List.mem_append_left _ hm)) fun v t _ hm => hm
  · have hevents : (s.server.handle now).events =
        s.server.events ++ [.append now (.testRequest (formatTime now))] := by
      rw [HeartBeatClient.handle_test hin hdc hlate hreq]
    have hinfo : (s.server.handle now).info = { s.server.info with
        since := now, testRequest := true, testValue := some (formatTime now) } := by
      rw [HeartBeatClient.handle_test hin hdc hlate hreq]
    refine ⟨?_, ?_, fun _ => ⟨formatTime now, ?_, .inl ?_⟩⟩
    · show _ ∉ (s.server.handle now).events
      rw [hevents, List.mem_append]
      exact not_or.2 ⟨h.removed, by simp⟩
    · show (s.server.handle now).info.elapsing = elapsing
      rw [hinfo]
      exact h.elapsing
    · show (s.server.handle now).info.testValue = _
      rw [hinfo]
    · show ((s.server.handle now).info.since, _) ∈
        s.toClient ++ (s.server.sentSince (s.server.handle now)).map fun msg => (now, msg)
      rw [HeartBeatClient.sentSince_append hevents, hinfo]
      simp [ClientEvent.sent?]
  · -- the TestRequest and its answer have both had the time they need
    exfalso
    have hpos : 0 ≤ seconds elapsing := by unfold seconds; omega
    rw [h.elapsing] at hlate
    obtain ⟨v, -, hm | ⟨t, hm, ht⟩⟩ := h.tested hreq
    · have := hp.1 _ (List.mem_append_left _ hm) trivial
      dsimp only at this
      omega
    · have := hp.1 _ (List.mem_append_right _ hm) trivial
      dsimp only at this
      omega

theorem Kept.serverTake (h : Kept elapsing delay s) {k : Nat} {receiveTime t : Int}
    {id : Option String} (hk : s.toServer[k]? = some (t, .heartBeat id)) :
    Kept elapsing delay ({ s with toServer := s.toServer.eraseIdx k }.setServer now
      (s.server.processHeartBeat receiveTime (.ok id))) := by
  obtain ⟨es, hevents, hes, helapsing, hover | ⟨hinfo, hid⟩⟩ :=
    HeartBeatClient.processHeartBeat_cases s.server receiveTime id
  · refine ⟨?_, helapsing.trans h.elapsing, fun hreq => ?_⟩
    · show _ ∉ (s.server.processHeartBeat receiveTime (.ok id)).events
      rw [hevents, List.mem_append]
      exact not_or.2 ⟨h.removed, hes⟩
    · exact absurd (hover.symm.trans hreq) (by decide)
  · refine h.of_server es hevents hes hinfo (fun v _ hm => .inl (List.mem_append_left _ hm))
      fun v t' hv hm => mem_eraseIdx_of_ne hm fun y hy he => ?_
    rw [hk] at hy
    cases hy
    cases he
    exact hid v rfl hv

theorem Kept.clientTake (h : Kept elapsing delay s) {k : Nat} {t : Int} {msg : Message}
    (hp : Prompt delay s (now, .clientTake k)) (hk : s.toClient[k]? = some (t, msg)) :
    Kept elapsing delay ({ s with toClient := s.toClient.eraseIdx k }.clientSends now
      (UserHeartBeatInfo.onInput msg)) := by
  refine h.of_server [] (List.append_nil _).symm List.not_mem_nil rfl (fun v _ hm => ?_)
    fun v t' _ hm => List.mem_append_left _ hm
  by_cases heq : (t, msg) = (s.server.info.since, .testRequest v)
  · cases heq
    have hlate := hp.1 _ (List.mem_append_left _ hm) trivial
    exact .inr ⟨now, List.mem_append_right _ (by simp [UserHeartBeatInfo.onInput]), hlate⟩
  · refine .inl (mem_eraseIdx_of_ne hm fun y hy he => heq ?_)
    rw [hk] at hy
    cases hy
    exact he

theorem step_eq (hle : s.clock ≤ now) (a : Act) : s.step (now, a) = s.act now a := if_pos hle

theorem step_act {a : Act} (h : s.step (now, a) = some s') : s.clock ≤ now ∧ s.act now a = some s' := by
  unfold KeepAlive.step at h
  dsimp only at h
  split at h
  · exact ⟨‹_›, h⟩
  · cases h

theorem Kept.step (hd : 2 * delay ≤ seconds elapsing) (h : Kept elapsing delay s) {a : Act}
    (hp : Prompt delay s (now, a)) (hs : s.step (now, a) = some s') : Kept elapsing delay s' := by
  have hact := (step_act hs).2
  cases a with
  | serverPass =>
    cases hact
    exact h.serverPass hd hp
  | clientPass =>
    cases hact
    exact h.of_server [] (List.append_nil _).symm List.not_mem_nil rfl
      (fun v _ hm => .inl hm) fun v t _ hm => List.mem_append_left _ hm
  | serverTake k receiveTime =>
    simp only [KeepAlive.act] at hact
    split at hact
    · rename_i t id hk
      split at hact
      · cases hact
        exact h.serverTake hk
      · cases hact
    · cases hact
  | clientTake k =>
    simp only [KeepAlive.act] at hact
    split at hact
    · rename_i t msg hk
      cases hact
      exact h.clientTake hp hk
    · cases hact
  | loseToServer k =>
    cases hact
    refine h.of_server [] (List.append_nil _).symm List.not_mem_nil rfl (fun v _ hm => .inl hm)
      fun v t _ hm => mem_eraseIdx_of_ne hm fun y hy he => ?_
    exact hp.2 y hy (he ▸ trivial)
  | loseToClient k =>
    cases hact
    refine h.of_server [] (List.append_nil _).symm List.not_mem_nil rfl
      (fun v _ hm => .inl (mem_eraseIdx_of_ne hm fun y hy he => ?_)) fun v t _ hm => hm
    exact hp.2 y hy (he ▸ trivial)

/-! ## When the messages take longer -/

/-- A client that was sent a TestRequest at `t`. -/
def tested (elapsing : Nat) (t : Int) : HeartBeatClient where
  loggedIn := true
  info := { elapsing, since := t, testRequest := true, testValue := some (formatTime t) }
  events := [.append t (.testRequest (formatTime t))]

theorem loggedOn_tested (elapsing : Nat) (t since : Int) (hlate : now + seconds elapsing < t) :
    (loggedOn elapsing now since).step (t, .serverPass) =
      some ⟨t, tested elapsing t, ⟨since, elapsing⟩, [(t, .testRequest (formatTime t))], []⟩ := by
  have hpos : 0 ≤ seconds elapsing := by unfold seconds; omega
  have hhandle : (loggedOn elapsing now since).server.handle t = tested elapsing t := by
    rw [HeartBeatClient.handle_test (c := (loggedOn elapsing now since).server) rfl rfl
      (show seconds elapsing < t - now by omega) rfl]
    rfl
  rw [step_eq (show now ≤ t by omega)]
  simp only [KeepAlive.act, hhandle, KeepAlive.setServer]
  rfl

theorem tested_answered (elapsing : Nat) (t t' since : Int) (ht : t ≤ t') :
    KeepAlive.step ⟨t, tested elapsing t, ⟨since, elapsing⟩, [(t, .testRequest (formatTime t))], []⟩
        (t', .clientTake 0) =
      some ⟨t', tested elapsing t, ⟨since, elapsing⟩, [], [(t', .heartBeat (some (formatTime t)))]⟩ := by
  rw [step_eq ht]
  rfl

/-- The pass that finds the answer still on its way. -/
theorem tested_removed (elapsing : Nat) (t t' since : Int) {t'' : Int} (ht : t' ≤ t'')
    (hlate : t + seconds elapsing < t'') :
    ∃ s', KeepAlive.step
        ⟨t', tested elapsing t, ⟨since, elapsing⟩, [], [(t', .heartBeat (some (formatTime t)))]⟩
        (t'', .serverPass) = some s' ∧ .removeClient ∈ s'.server.events := by
  have hhandle : (tested elapsing t).handle t'' = (tested elapsing t).removeClient :=
    HeartBeatClient.handle_remove rfl rfl (show seconds elapsing < t'' - t by omega) rfl
  rw [step_eq ht]
  refine ⟨_, rfl, ?_⟩
  show _ ∈ ((tested elapsing t).handle t'').events
  rw [hhandle]
  exact List.mem_append_right _ (List.mem_singleton_self _)

theorem removed_of_delay (now since : Int) (hd : seconds elapsing < 2 * delay) :
    ∃ s, Trans.Run step (Prompt delay) (loggedOn elapsing now since) s ∧
      .removeClient ∈ s.server.events := by
  have hpos : 0 ≤ seconds elapsing := by unfold seconds; omega
  -- the TestRequest takes `d`, its answer what is left of the elapsing time
  obtain ⟨d, hd0, hd1, hd2, hd3⟩ : ∃ d, 0 ≤ d ∧ d ≤ delay ∧ d ≤ seconds elapsing + 1 ∧
      seconds elapsing + 1 - d ≤ delay :=
    ⟨min delay (seconds elapsing + 1), by omega, by omega, by omega, by omega⟩
  let t := now + seconds elapsing + 1
  obtain ⟨s, hs, hrem⟩ := tested_removed elapsing t (t + d) since
    (show t + d ≤ t + seconds elapsing + 1 by omega) (by omega)
  have h₁ := Trans.Run.start.next (C := Prompt delay) ⟨by simp [loggedOn], trivial⟩
    (loggedOn_tested elapsing t since (show now + seconds elapsing < t by omega))
  have h₂ := h₁.next ⟨fun m hm _ => ?_, trivial⟩
    (tested_answered elapsing t (t + d) since (by omega))
  · refine ⟨s, h₂.next ⟨fun m hm _ => ?_, trivial⟩ hs, hrem⟩
    cases List.mem_singleton.1 hm
    show t + seconds elapsing + 1 - (t + d) ≤ delay
    omega
  · cases List.mem_singleton.1 hm
    show t + d - t ≤ delay
    omega

/-- **Who runs is kept.** The server never asks for the removal of a client that runs, whatever the order
of the timers and the messages, if each TestRequest and each answer to one is handled within `delay` of
being sent, and twice the delay is no more than the elapsing time; and if it is more, some run removes
the client. -/
theorem keep_alive (elapsing : Nat) (delay now since : Int) :
    (∀ s, Trans.Run step (Prompt delay) (loggedOn elapsing now since) s →
      .removeClient ∉ s.server.events) ↔ 2 * delay ≤ seconds elapsing := by
  constructor
  · intro h
    by_contra hlt
    obtain ⟨s, hs, hrem⟩ := removed_of_delay now since (Int.not_le.1 hlt)
    exact h s hs hrem
  · intro hd s h
    have h0 : Kept elapsing delay (loggedOn elapsing now since) :=
      ⟨List.not_mem_nil, rfl, fun hreq => absurd hreq Bool.false_ne_true⟩
    exact (h.invariant h0 fun _ _ _ hI hp hs => hI.step hd hp hs).removed

end KeepAlive

namespace HeartBeatHandler

variable {maxTO : ℚ} {now t : Int} {c : HeartBeatClient} {elapsing : Nat}

/-! ## A client of which nothing is heard -/

theorem step_times {s s' : HeartBeatHandler} {x : Client} {a : Act} (h : s.step (now, x, a) = some s') :
    ∀ t ∈ receiveTime a, t ≤ now := by
  simp only [step] at h
  split at h
  · rename_i hle
    exact hle.2
  · cases h

theorem act_since (maxTO : ℚ) (hc : c.loggedIn = true → c.info.since ≤ now) (a : Act)
    (ht : ∀ t ∈ receiveTime a, t ≤ now) (hin : (act maxTO c now a).loggedIn = true) :
    (act maxTO c now a).info.since ≤ now := by
  cases a with
  | newClient => exact Int.le_refl _
  | logon receiveTime header parsed =>
    revert hin
    simp only [act, HeartBeatClient.logon]
    split
    · exact hc
    · split
      · exact hc
      · split
        · exact hc
        · exact fun _ => Int.le_refl _
  | heartBeat receiveTime parsed =>
    revert hin
    simp only [act, HeartBeatClient.processHeartBeat]
    split
    · exact hc
    · split
      · split
        · exact hc
        · exact hc
        · split
          · exact hc
          · exact fun _ => ht receiveTime rfl
      · exact fun _ => ht receiveTime rfl
  | testRequest receiveTime parsed =>
    revert hin
    simp only [act, HeartBeatClient.processTestRequest]
    split <;> exact hc
  | logout receiveTime parsed =>
    revert hin
    simp only [act, HeartBeatClient.logout]
    split <;> exact hc
  | handle =>
    revert hin
    show (c.handle now).loggedIn = true → (c.handle now).info.since ≤ now
    rcases c.handle_cases now with ⟨heq, -⟩ | ⟨hin, hdc, hlate, hreq | hreq⟩
    · rw [heq]
      exact hc
    · rw [HeartBeatClient.handle_test hin hdc hlate hreq]
      exact fun _ => Int.le_refl _
    · rw [HeartBeatClient.handle_remove hin hdc hlate hreq]
      exact fun hin => absurd hin Bool.false_ne_true
  | removed => cases hin

theorem since_le {clock : Int} {s : HeartBeatHandler} (h : Trans.Reach step (init maxTO clock) s) :
    ∀ x, (s.client x).loggedIn = true → (s.client x).info.since ≤ s.clock := by
  refine h.invariant (I := fun s => ∀ x, (s.client x).loggedIn = true →
    (s.client x).info.since ≤ s.clock) (fun _ hin => absurd hin Bool.false_ne_true)
    fun s (now, x, a) s' hI _ hs y hin => ?_
  obtain ⟨hle, hclock, hact, hother⟩ := step_spec hs
  rw [hclock]
  by_cases hy : y = x
  · subst hy
    rw [hact] at hin ⊢
    exact act_since _ (fun hin => (hI y hin).trans hle) a (step_times hs) hin
  · rw [hother y hy] at hin ⊢
    exact (hI y hin).trans hle

/-- The client was removed. -/
structure Gone (c : HeartBeatClient) : Prop where
  loggedIn : c.loggedIn = false
  removed : .removeClient ∈ c.events

/-- What a pass reads of a client that is logged in. -/
structure Watched (elapsing : Nat) (c : HeartBeatClient) : Prop where
  loggedIn : c.loggedIn = true
  shouldDc : c.shouldDc = false
  elapsing : c.info.elapsing = elapsing

/-- Before the first pass that comes too late: nothing was heard since `t`, or the client is tested. -/
def Waiting (elapsing : Nat) (t now : Int) (c : HeartBeatClient) : Prop :=
  Gone c ∨ Watched elapsing c ∧ c.info.since ≤ now ∧ (c.info.since ≤ t ∨ c.info.testRequest = true)

/-- After it: the client is tested. -/
def Tested (elapsing : Nat) (t : Int) (c : HeartBeatClient) : Prop :=
  Gone c ∨ Watched elapsing c ∧ c.info.since ≤ t ∧ c.info.testRequest = true

theorem Gone.handle (h : Gone c) (now : Int) : c.handle now = c := by
  simp [HeartBeatClient.handle, h.loggedIn]

theorem gone_removeClient (c : HeartBeatClient) : Gone c.removeClient :=
  ⟨rfl, List.mem_append_right _ (List.mem_singleton_self _)⟩

theorem Waiting.handle (h : Waiting elapsing t now c) : Waiting elapsing t now (c.handle now) := by
  rcases c.handle_cases now with ⟨heq, -⟩ | ⟨hin, hdc, hlate, hreq | hreq⟩
  · rwa [heq]
  · rcases h with h | ⟨hw, -⟩
    · rw [h.handle]
      exact .inl h
    · rw [HeartBeatClient.handle_test hin hdc hlate hreq]
      exact .inr ⟨⟨hw.loggedIn, hw.shouldDc, hw.elapsing⟩, Int.le_refl _, .inr rfl⟩
  · rw [HeartBeatClient.handle_remove hin hdc hlate hreq]
    exact .inl (gone_removeClient c)

/-- The first pass that comes too late. -/
theorem Waiting.late (h : Waiting elapsing t now c) (hlate : t + seconds elapsing < now) :
    Tested elapsing now (c.handle now) := by
  rcases h with h | ⟨hw, hnow, hsince⟩
  · rw [h.handle]
    exact .inl h
  · cases hreq : c.info.testRequest with
    | true =>
      rcases c.handle_cases now with ⟨heq, -⟩ | ⟨hin, hdc, hlt, -⟩
      · rw [heq]
        exact .inr ⟨hw, hnow, hreq⟩
      · rw [HeartBeatClient.handle_remove hin hdc hlt hreq]
        exact .inl (gone_removeClient c)
    | false =>
      have hle : c.info.since ≤ t := hsince.resolve_right (by simp [hreq])
      rw [HeartBeatClient.handle_test hw.loggedIn hw.shouldDc (by rw [hw.elapsing]; omega) hreq]
      exact .inr ⟨⟨hw.loggedIn, hw.shouldDc, hw.elapsing⟩, Int.le_refl _, rfl⟩

theorem Tested.handle (h : Tested elapsing t c) (now : Int) : Tested elapsing t (c.handle now) := by
  rcases h with h | ⟨hw, hsince, hreq⟩
  · rw [h.handle]
    exact .inl h
  · rcases c.handle_cases now with ⟨heq, -⟩ | ⟨hin, hdc, hlate, -⟩
    · rw [heq]
      exact .inr ⟨hw, hsince, hreq⟩
    · rw [HeartBeatClient.handle_remove hin hdc hlate hreq]
      exact .inl (gone_removeClient c)

/-- The second pass that comes too late. -/
theorem Tested.late (h : Tested elapsing t c) (hlate : t + seconds elapsing < now) :
    Gone (c.handle now) := by
  rcases h with h | ⟨hw, hsince, hreq⟩
  · rw [h.handle]
    exact h
  · rw [HeartBeatClient.handle_remove hw.loggedIn hw.shouldDc (by rw [hw.elapsing]; omega) hreq]
    exact gone_removeClient c

/-- What a silent client's step keeps of it, if it is no pass. -/
structure Unheard (c c' : HeartBeatClient) : Prop where
  info : c'.info = c.info
  loggedIn : c'.loggedIn = c.loggedIn
  shouldDc : c'.shouldDc = c.shouldDc
  events : ∃ es, c'.events = c.events ++ es

variable {c' : HeartBeatClient}

theorem Gone.unheard (h : Gone c) (hu : Unheard c c') : Gone c' := by
  obtain ⟨es, hes⟩ := hu.events
  exact ⟨hu.loggedIn.trans h.loggedIn, hes ▸ List.mem_append_left _ h.removed⟩

theorem Watched.unheard (h : Watched elapsing c) (hu : Unheard c c') : Watched elapsing c' :=
  ⟨hu.loggedIn.trans h.loggedIn, hu.shouldDc.trans h.shouldDc, hu.info ▸ h.elapsing⟩

theorem Waiting.unheard (h : Waiting elapsing t now c) (hu : Unheard c c') :
    Waiting elapsing t now c' := by
  unfold Waiting at h ⊢
  rw [hu.info]
  exact h.imp (·.unheard hu) fun h => ⟨h.1.unheard hu, h.2⟩

theorem Tested.unheard (h : Tested elapsing t c) (hu : Unheard c c') : Tested elapsing t c' := by
  unfold Tested at h ⊢
  rw [hu.info]
  exact h.imp (·.unheard hu) fun h => ⟨h.1.unheard hu, h.2⟩

theorem silent_act {x : Client} {s : HeartBeatHandler} {a : Act} (h : Silent x s (now, x, a)) :
    a = .handle ∨ ∀ maxTO c, Unheard c (act maxTO c now a) := by
  cases a with
  | handle => exact .inl rfl
  | testRequest receiveTime parsed =>
    refine .inr fun _ c => ?_
    cases parsed <;> exact ⟨rfl, rfl, rfl, [_], rfl⟩
  | heartBeat receiveTime parsed =>
    cases parsed with
    | error reject => exact .inr fun _ c => ⟨rfl, rfl, rfl, [_], rfl⟩
    | ok id => exact absurd rfl h
  | newClient | logon | logout | removed => exact absurd rfl h

theorem waiting_of_run {x : Client} {s s' : HeartBeatHandler} (hr : Trans.Run step (Silent x) s s')
    (h : Waiting elapsing t s.clock (s.client x)) : Waiting elapsing t s'.clock (s'.client x) := by
  refine hr.invariant (I := fun s => Waiting elapsing t s.clock (s.client x)) h
    fun s (now, y, a) s' hI hc hs => ?_
  obtain ⟨hle, hclock, hact, hother⟩ := step_spec hs
  have hnow : Waiting elapsing t now (s.client x) :=
    hI.imp_right fun h => ⟨h.1, h.2.1.trans hle, h.2.2⟩
  rw [hclock]
  by_cases hx : x = y
  · subst hx
    rw [hact]
    rcases silent_act hc with rfl | hu
    · exact hnow.handle
    · exact hnow.unheard (hu _ _)
  · rwa [hother x hx]

theorem tested_of_run {x : Client} {s s' : HeartBeatHandler} (hr : Trans.Run step (Silent x) s s')
    (h : Tested elapsing t (s.client x)) : Tested elapsing t (s'.client x) := by
  refine hr.invariant (I := fun s => Tested elapsing t (s.client x)) h
    fun s (now, y, a) s' hI hc hs => ?_
  obtain ⟨-, -, hact, hother⟩ := step_spec hs
  by_cases hx : x = y
  · subst hx
    rw [hact]
    rcases silent_act hc with rfl | hu
    · exact hI.handle now
    · exact hI.unheard (hu _ _)
  · rwa [hother x hx]

end HeartBeatHandler

end Fix42
