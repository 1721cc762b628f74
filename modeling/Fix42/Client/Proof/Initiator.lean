import Fix42.Client.Initiator

/-!
# Steps of the initiator

Which rows a key and a name stand for, what a login comes to (`identifyFrontend_cases`), and which
session a lookup finds (`findSession_eq_found`).
-/

namespace Fix42

open Ipc Net

/-! ## Rows -/

theorem Row.is_some {r : Row} {apikey name : Bytes} : r.is (some apikey) name = true ↔
    ∃ a, r.apikey = some a ∧ bpchar a = bpchar apikey ∧ r.clientName = some name := by
  unfold Row.is
  cases r.apikey <;> simp

/-- Two keys and names that stand for one row are the same, but for blanks. -/
theorem Row.is_same {r : Row} {k k' n n' : Bytes} (h : r.is (some k) n = true) :
    r.is (some k') n' = true ↔ bpchar k' = bpchar k ∧ n' = n := by
  obtain ⟨a, ha, hk, hn⟩ := Row.is_some.1 h
  simp only [Row.is_some, ha, hn, Option.some.injEq, exists_eq_left', hk]
  exact and_congr eq_comm eq_comm

/-- The name of a row is none of another key and name. -/
theorem Row.is_none {r : Row} {name : Bytes} : r.is none name = false := by
  unfold Row.is
  cases r.apikey <;> rfl

theorem exists_setConnected {rows : List Row} {c : Bool} {apikey : Option Bytes} {name k n : Bytes} :
    (∃ r ∈ setConnected rows c apikey name, r.is (some k) n = true) ↔
      ∃ r ∈ rows, r.is (some k) n = true := by
  simp only [setConnected, List.mem_map, exists_exists_and_eq_and]
  constructor <;> rintro ⟨r, hr, h⟩ <;> refine ⟨r, hr, ?_⟩
  · split at h <;> exact h
  · split <;> exact h

theorem forall_setConnected {rows : List Row} {c : Bool} {apikey : Option Bytes} {name : Bytes}
    {P : Row → Prop} : (∀ r ∈ setConnected rows c apikey name, P r) ↔
      ∀ r ∈ rows, P (if r.is apikey name then { r with connected := some c } else r) := by
  simp [setConnected]

/-- A client under one name, not connected. -/
def Row.free (id : Int) (apikey name : String) : Row :=
  ⟨id, some (ascii apikey), some (ascii name), some (ascii name), some false⟩

def Row.twoFree : List Row := [.free 1 "k1" "alice", .free 2 "k2" "bob"]

namespace Initiator

variable {s s' : Initiator} {i j : SessionId} {apikey name serverName : Bytes} {r : Row}

/-! ## Sessions -/

@[simp] theorem session_update {f : ClientSession → ClientSession} :
    (s.update i f).session j = if j = i then f (s.session j) else s.session j := by
  unfold update
  dsimp only
  rw [Function.update_apply]
  split
  · rename_i h
    rw [h]
  · rfl

@[simp] theorem next_update {f : ClientSession → ClientSession} : (s.update i f).next = s.next :=
  rfl

/-- An update leaves a field that it does not write. -/
theorem update_field {β : Type} (g : ClientSession → β) {c : ClientSession}
    (hc : g c = g (s.session i)) (j : SessionId) :
    g (Function.update s.session i c j) = g (s.session j) := by
  by_cases h : j = i
  · rw [h, Function.update_self, hc]
  · rw [Function.update_of_ne h]

/-! ## The fields a step writes -/

theorem row_setConnectedTrue : ((s.setConnectedTrue i apikey name serverName).session j).row =
    if j = i then some (apikey, name) else (s.session j).row := by
  by_cases h : j = i <;> simp [setConnectedTrue, h]

theorem apikey_setConnectedTrue :
    ((s.setConnectedTrue i apikey name serverName).session j).apikey = (s.session j).apikey := by
  by_cases h : j = i <;> simp [setConnectedTrue, h]

theorem closed_setConnectedTrue :
    ((s.setConnectedTrue i apikey name serverName).session j).closed = (s.session j).closed := by
  by_cases h : j = i <;> simp [setConnectedTrue, h]

theorem live_setConnectedTrue :
    (s.setConnectedTrue i apikey name serverName).Live j ↔ s.Live j := by
  unfold Live
  rw [closed_setConnectedTrue]
  rfl

theorem owns_setConnectedTrue : (s.setConnectedTrue i apikey name serverName).Owns j r ↔
    if j = i then r.is (some apikey) name = true else s.Owns j r := by
  unfold Owns
  rw [row_setConnectedTrue]
  split <;> simp

theorem row_setFrontend :
    ((s.setFrontend i apikey serverName).session j).row = (s.session j).row := by
  by_cases h : j = i <;> simp [setFrontend, toFront, h]

theorem apikey_setFrontend : ((s.setFrontend i apikey serverName).session j).apikey =
    if j = i then some apikey else (s.session j).apikey := by
  by_cases h : j = i <;> simp [setFrontend, toFront, h]

theorem closed_setFrontend :
    ((s.setFrontend i apikey serverName).session j).closed = (s.session j).closed := by
  by_cases h : j = i <;> simp [setFrontend, toFront, h]

theorem socket_setFrontend :
    ((s.setFrontend i apikey serverName).session j).socket = (s.session j).socket := by
  by_cases h : j = i <;> simp [setFrontend, toFront, h]

theorem token_setFrontend :
    ((s.setFrontend i apikey serverName).session j).token = (s.session j).token := by
  by_cases h : j = i <;> simp [setFrontend, toFront, h]

theorem live_setFrontend : (s.setFrontend i apikey serverName).Live j ↔ s.Live j := by
  unfold Live
  rw [closed_setFrontend]
  rfl

theorem owns_setFrontend : (s.setFrontend i apikey serverName).Owns j r ↔ s.Owns j r := by
  unfold Owns
  rw [row_setFrontend]

theorem row_close : ((s.close i).session j).row = (s.session j).row := by
  by_cases h : j = i <;> simp [close, h]

theorem apikey_close : ((s.close i).session j).apikey = (s.session j).apikey := by
  by_cases h : j = i <;> simp [close, h]

theorem token_close : ((s.close i).session j).token = (s.session j).token := by
  by_cases h : j = i <;> simp [close, h]

theorem live_close : (s.close i).Live j ↔ j ≠ i ∧ s.Live j := by
  by_cases h : j = i <;> simp [Live, close, h]

theorem owns_close : (s.close i).Owns j r ↔ s.Owns j r := by
  unfold Owns
  rw [row_close]

/-! ## Logins -/

theorem identifyFrontend_cases {auth : AuthFrontToInitiator} {k : Nat}
    (h : s.identifyFrontend i auth k = some s') :
    s' = s ∨ (∃ message, s' = s.rejectFront i message) ∨
      (s.session i).apikey = none ∧ (∃ r ∈ s.rows, r.is (some auth.apikey) auth.name = true ∧
        r.connected = some false) ∧
        ∃ serverName, s' = { s with login := .selected i auth.apikey auth.name serverName } := by
  unfold identifyFrontend at h
  split at h
  · exact .inl (by simpa using h.symm)
  rename_i hkey
  dsimp only at h
  split at h
  · exact .inr (.inl ⟨_, by simpa using h.symm⟩)
  split at h
  · rename_i serverName connected hr
    split at h
    · exact .inr (.inl ⟨_, by simpa using h.symm⟩)
    · rename_i hc
      have hm := List.mem_of_getElem? hr
      rw [List.mem_filter] at hm
      exact .inr (.inr ⟨by simpa using hkey, ⟨_, hm.1, hm.2, by simpa using hc⟩, serverName,
        by simpa using h.symm⟩)
  · cases h

/-! ## Lookups -/

theorem findSession_eq_found {apikey : Bytes} (hi : (s.session i).apikey = some apikey) :
    ∀ l : List SessionId, s.findSession apikey l = .found i ↔
      i ∈ l ∧ ∀ j ∈ l.takeWhile (· ≠ i),
        (s.session j).apikey.isSome ∧ (s.session j).apikey ≠ (s.session i).apikey
  | [] => by simp [findSession]
  | j :: l => by
    by_cases hj : j = i
    · subst hj
      simp [findSession, hi]
    have ih := findSession_eq_found hi l
    unfold findSession
    cases ha : (s.session j).apikey with
    | none => simp [hj, ha]
    | some a =>
      by_cases hk : a = apikey
      · simp [hk, hj, ha, hi]
      · simp [hk, hj, Ne.symm hj, ha, hi, ih]

theorem mem_of_findSession : ∀ {l : List SessionId}, s.findSession apikey l = .found i → i ∈ l
  | [], h => by cases h
  | j :: l, h => by
    unfold findSession at h
    split at h
    · cases h
    · split at h
      · cases h
        exact List.mem_cons_self
      · exact List.mem_cons_of_mem _ (mem_of_findSession h)

theorem findSession_congr (h : s'.session = s.session) (apikey : Bytes) (l : List SessionId) :
    s'.findSession apikey l = s.findSession apikey l := by
  induction l with
  | nil => rfl
  | cons i l ih => simp only [findSession, h, ih]

/-! ## Steps -/

/-- What an action comes to. -/
inductive Effect (s : Initiator) : Act → Initiator → Prop
  | newSession :
      Effect s .newSession { s with sessions := s.sessions ++ [s.next], next := s.next + 1 }
  | ignored {i : SessionId} {auth : AuthFrontToInitiator} {k : Nat} : Effect s (.login i auth k) s
  | rejected {i : SessionId} {auth : AuthFrontToInitiator} {k : Nat} {message : String} :
      Effect s (.login i auth k) (s.rejectFront i message)
  | selected {i : SessionId} {auth : AuthFrontToInitiator} {k : Nat} {serverName : Bytes}
      (hidle : s.login = .idle) (hi : i < s.next) (hkey : (s.session i).apikey = none)
      (hr : ∃ r ∈ s.rows, r.is (some auth.apikey) auth.name = true ∧ r.connected = some false) :
      Effect s (.login i auth k) { s with login := .selected i auth.apikey auth.name serverName }
  | updated {i : SessionId} {apikey name serverName : Bytes}
      (hl : s.login = .selected i apikey name serverName) :
      Effect s .proceed (s.setConnectedTrue i apikey name serverName)
  | identified {i : SessionId} {apikey serverName : Bytes}
      (hl : s.login = .updated i apikey serverName) :
      Effect s .proceed (s.setFrontend i apikey serverName)
  | launched {i : SessionId} {apikey : Bytes} (hl : s.login = .identified i)
      (hkey : (s.session i).apikey = some apikey) :
      Effect s .proceed { s with login := .idle, backends := s.backends ++ [(i, apikey)] }
  | closed {i : SessionId} (hi : i ∈ s.sessions) : Effect s (.close i) (s.close i)
  | erased {i : SessionId} {removals : List SessionId} :
      Effect s .erase { s with sessions := s.sessions.erase i, removals }
  | bound {i j : SessionId} {port : BitVec 32} {apikey : Bytes}
      (hb : s.backends.lookup i = some apikey) (hj : s.findSession apikey s.sessions = .found j) :
      Effect s (.backend i port) { s.update j fun c => { c with socket := some i } with
        backends := s.backends.filter fun p => p.1 ≠ i
        lookups := s.lookups ++ [(i, .found j)]
        tasks := s.tasks ++ [(j, ⟨apikey, port⟩)] }
  | lost {i : SessionId} {port : BitVec 32} {apikey : Bytes} {lookup : SessionLookup}
      (hb : s.backends.lookup i = some apikey) (hl : s.findSession apikey s.sessions = lookup)
      (hne : ∀ j, lookup ≠ .found j) :
      Effect s (.backend i port) { s with
        backends := s.backends.filter fun p => p.1 ≠ i
        lookups := s.lookups ++ [(i, lookup)]
        running := false }
  | issued {j : SessionId} {auth : AuthBackToInitiator}
      {tasks : List (SessionId × AuthBackToInitiator)} (ht : s.tasks = (j, auth) :: tasks) :
      Effect s .issue ({ s with tasks }.identifyBackend j auth)

theorem step_effect {a : Act} (h : step s a = some s') : Effect s a s' := by
  cases a with
  | newSession =>
    cases h
    exact .newSession
  | login i auth k =>
    obtain ⟨⟨hidle, hi⟩, h⟩ := Option.ite_none_right_eq_some.1 h
    obtain rfl | ⟨_, rfl⟩ | ⟨hkey, hr, serverName, rfl⟩ := identifyFrontend_cases h
    · exact .ignored
    · exact .rejected
    · exact .selected hidle hi hkey hr
  | proceed =>
    simp only [step] at h
    split at h
    · cases h
    · rename_i hl
      cases h
      exact .updated hl
    · rename_i hl
      cases h
      exact .identified hl
    · rename_i hl
      obtain ⟨key, hkey, rfl⟩ := Option.map_eq_some_iff.1 h
      exact .launched hl hkey
  | close i =>
    obtain ⟨hi, h⟩ := Option.ite_none_right_eq_some.1 h
    cases h
    exact .closed hi
  | erase =>
    simp only [step] at h
    split at h
    · cases h
    · obtain ⟨_, h⟩ := Option.ite_none_right_eq_some.1 h
      cases h
      exact .erased
  | backend i port =>
    simp only [step] at h
    split at h
    · cases h
    rename_i apikey hb
    obtain ⟨_, h⟩ := Option.ite_none_right_eq_some.1 h
    cases h
    have hf : { s with backends := s.backends.filter fun p => p.1 ≠ i }.findSession apikey
        s.sessions = s.findSession apikey s.sessions := by
      refine findSession_congr ?_ ..
      rfl
    simp only [processBack, hf]
    cases hl : s.findSession apikey s.sessions with
    | found j => exact .bound hb hl
    | threw => exact .lost hb hl (by simp)
    | null => exact .lost hb hl (by simp)
  | issue =>
    simp only [step] at h
    split at h
    · cases h
    · rename_i ht
      cases h
      exact .issued ht

end Initiator

end Fix42
