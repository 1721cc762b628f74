import Fix42.Client.Proof.Initiator

/-!
# Connected flags and live sessions

`Progress` is what every run of the initiator keeps about its sessions and the login under way.
`Flags` is what the runs under `Keeps` keep besides: the flags agree with the live sessions, of which
no two logged in as one row. `update_agree` and `close_agree` say exactly when the two statements that
write flags leave them right.
-/

namespace Fix42

open Net Trans

namespace Initiator

variable {s s' : Initiator} {a : Act} {i j : SessionId} {apikey name serverName : Bytes} {r : Row}

/-! ## What a step changes -/

/-- What a step that writes no flag, no key and no session's end leaves. -/
structure Same (s s' : Initiator) : Prop where
  rows : s'.rows = s.rows
  next : s.next ≤ s'.next
  row : ∀ i, (s'.session i).row = (s.session i).row
  apikey : ∀ i, (s'.session i).apikey = (s.session i).apikey
  closed : ∀ i, (s'.session i).closed = (s.session i).closed

/-- A step over the table, the logins and the sessions' ends. -/
inductive Change (s : Initiator) (a : Act) (s' : Initiator) : Prop
  | same (hs : Same s s') (hl : s'.login = s.login) (hk : s.Keeps a)
  | select {i : SessionId} {apikey name serverName : Bytes} (hs : Same s s') (hi : i < s.next)
      (hidle : s.login = .idle) (hkey : (s.session i).apikey = none)
      (hr : ∃ r ∈ s.rows, r.is (some apikey) name = true ∧ r.connected = some false)
      (hl : s'.login = .selected i apikey name serverName) (hk : s.Keeps a)
  | update {i : SessionId} {apikey name serverName : Bytes} (ha : a = .proceed)
      (hl : s.login = .selected i apikey name serverName)
      (hs : s' = s.setConnectedTrue i apikey name serverName)
  | front {i : SessionId} {apikey serverName : Bytes} (hl : s.login = .updated i apikey serverName)
      (hs : s' = s.setFrontend i apikey serverName) (hk : s.Keeps a)
  | launch {i : SessionId} (hs : Same s s') (hl : s.login = .identified i) (hl' : s'.login = .idle)
      (hk : s.Keeps a)
  | close {i : SessionId} (ha : a = .close i) (hs : s' = s.close i)

theorem Same.refl (hr : s'.rows = s.rows) (hn : s.next ≤ s'.next) (hs : s'.session = s.session) :
    Same s s' where
  rows := hr
  next := hn
  row i := by rw [hs]
  apikey i := by rw [hs]
  closed i := by rw [hs]

theorem Same.update {c : ClientSession} (hs : s'.session = Function.update s.session i c)
    (hr : s'.rows = s.rows) (hn : s'.next = s.next) (hrow : c.row = (s.session i).row)
    (hkey : c.apikey = (s.session i).apikey) (hclosed : c.closed = (s.session i).closed) :
    Same s s' where
  rows := hr
  next := hn.ge
  row j := by
    rw [hs]
    exact update_field (·.row) hrow j
  apikey j := by
    rw [hs]
    exact update_field (·.apikey) hkey j
  closed j := by
    rw [hs]
    exact update_field (·.closed) hclosed j

theorem step_change (h : step s a = some s') : Change s a s' := by
  cases step_effect h with
  | newSession => exact .same (.refl rfl (Nat.le_succ _) rfl) rfl trivial
  | ignored | erased => exact .same (.refl rfl le_rfl rfl) rfl trivial
  | rejected => exact .same (.update rfl rfl rfl rfl rfl rfl) rfl trivial
  | selected hidle hi hkey hr => exact .select (.refl rfl le_rfl rfl) hi hidle hkey hr rfl trivial
  | updated hl => exact .update rfl hl rfl
  | identified hl => exact .front hl rfl (by simp [Keeps, hl, Login.updating])
  | launched hl _ =>
    exact .launch (.refl rfl le_rfl rfl) hl rfl (by simp [Keeps, hl, Login.updating])
  | closed _ => exact .close rfl rfl
  | bound _ _ => exact .same (.update rfl rfl rfl rfl rfl rfl) rfl trivial
  | lost _ _ _ => exact .same (.refl rfl le_rfl rfl) rfl trivial
  | issued _ => exact .same (.update rfl rfl rfl rfl rfl rfl) rfl trivial

/-- Its flag is no part of what a row is. -/
theorem owns_ite {p : Prop} [Decidable p] {c : Option Bool} :
    s.Owns j (if p then { r with connected := c } else r) ↔ s.Owns j r := by
  split <;> rfl

/-! ## Logins -/

structure Progress (s : Initiator) : Prop where
  fresh : ∀ i, s.next ≤ i → (s.session i).row = none
  /-- A session with a row and no key is between the UPDATE and the writes after it. -/
  keyed : ∀ i, (s.session i).apikey = none → (s.session i).row = none ∨
    ∃ apikey serverName, s.login = .updated i apikey serverName
  listed : ∀ i, ∀ p ∈ (s.session i).row, ∃ r ∈ s.rows, r.is (some p.1) p.2 = true
  selected : ∀ i apikey name serverName, s.login = .selected i apikey name serverName →
    i < s.next ∧ (s.session i).row = none ∧ ∃ r ∈ s.rows, r.is (some apikey) name = true

theorem progress_init (rows : List Row) : Progress (init rows) where
  fresh _ _ := rfl
  keyed _ _ := .inl rfl
  listed _ _ h := by cases h
  selected _ _ _ _ h := by cases h

section
variable (hP : Progress s)
include hP

theorem Progress.same (hs : Same s s')
    (hu : ∀ i apikey serverName, s.login = .updated i apikey serverName →
      s'.login = .updated i apikey serverName)
    (hl : ∀ i apikey name serverName, s'.login = .selected i apikey name serverName →
      i < s.next ∧ (s.session i).row = none ∧ ∃ r ∈ s.rows, r.is (some apikey) name = true) :
    Progress s' where
  fresh i hi := by
    rw [hs.row]
    exact hP.fresh i (hs.next.trans hi)
  keyed i hi := by
    rw [hs.apikey] at hi
    rw [hs.row]
    exact (hP.keyed i hi).imp_right fun ⟨apikey, serverName, h⟩ => ⟨_, _, hu i apikey serverName h⟩
  listed i p hp := by
    rw [hs.row] at hp
    rw [hs.rows]
    exact hP.listed i p hp
  selected i apikey name serverName h := by
    rw [hs.row, hs.rows]
    obtain ⟨hi, hrow, hr⟩ := hl i apikey name serverName h
    exact ⟨hi.trans_le hs.next, hrow, hr⟩

theorem Progress.update (hl : s.login = .selected i apikey name serverName) :
    Progress (s.setConnectedTrue i apikey name serverName) := by
  obtain ⟨hi, -, hr⟩ := hP.selected i apikey name serverName hl
  refine ⟨fun j hj => ?_, fun j hkey => ?_, fun j p hp => ?_, fun _ _ _ _ h => by cases h⟩
  · rw [row_setConnectedTrue, if_neg (hi.trans_le hj).ne']
    exact hP.fresh j hj
  · rw [row_setConnectedTrue]
    split
    · rename_i hj
      subst hj
      exact .inr ⟨_, _, rfl⟩
    · rw [apikey_setConnectedTrue] at hkey
      refine .inl ((hP.keyed j hkey).resolve_right ?_)
      rintro ⟨_, _, h⟩
      rw [hl] at h
      cases h
  · rw [row_setConnectedTrue] at hp
    refine exists_setConnected.2 ?_
    split at hp
    · cases hp
      exact hr
    · exact hP.listed j p hp

theorem Progress.front (hl : s.login = .updated i apikey serverName) :
    Progress (s.setFrontend i apikey serverName) := by
  refine ⟨fun j hj => ?_, fun j hkey => ?_, fun j p hp => ?_, fun _ _ _ _ h => by cases h⟩
  · rw [row_setFrontend]
    exact hP.fresh j hj
  · rw [apikey_setFrontend] at hkey
    split at hkey
    · cases hkey
    · rename_i hj
      rw [row_setFrontend]
      refine .inl ((hP.keyed j hkey).resolve_right ?_)
      rintro ⟨_, _, h⟩
      rw [hl] at h
      cases h
      exact hj rfl
  · rw [row_setFrontend] at hp
    exact hP.listed j p hp

theorem Progress.close : Progress (s.close i) := by
  refine ⟨fun j hj => ?_, fun j hkey => ?_, fun j p hp => ?_, fun j k n serverName hl => ?_⟩
  · rw [row_close]
    exact hP.fresh j hj
  · rw [apikey_close] at hkey
    rw [row_close]
    exact hP.keyed j hkey
  · rw [row_close] at hp
    exact exists_setConnected.2 (hP.listed j p hp)
  · rw [row_close]
    obtain ⟨hj, hrow, hr⟩ := hP.selected j k n serverName hl
    exact ⟨hj, hrow, exists_setConnected.2 hr⟩

theorem Progress.step (h : step s a = some s') : Progress s' := by
  cases step_change h with
  | same hs hl _ =>
    refine hP.same hs (fun _ _ _ => hl.trans) fun i k n serverName h => ?_
    exact hP.selected i k n serverName (hl.symm.trans h)
  | select hs hi hidle hkey hr hl _ =>
    refine hP.same hs (fun _ _ _ h => ?_) fun j k n serverName h => ?_
    · rw [hidle] at h
      cases h
    · rw [hl] at h
      cases h
      refine ⟨hi, (hP.keyed _ hkey).resolve_right ?_, ?_⟩
      · rintro ⟨_, _, h⟩
        rw [hidle] at h
        cases h
      · obtain ⟨r, hr, h, -⟩ := hr
        exact ⟨r, hr, h⟩
  | update _ hl hs =>
    rw [hs]
    exact hP.update hl
  | front hl hs _ =>
    rw [hs]
    exact hP.front hl
  | launch hs hl hl' _ =>
    refine hP.same hs (fun _ _ _ h => ?_) fun _ _ _ _ h => ?_
    · rw [hl] at h
      cases h
    · rw [hl'] at h
      cases h
  | close _ hs =>
    rw [hs]
    exact hP.close

end

/-! ## Flags -/

/-- What the runs under `Keeps` keep. -/
structure Flags (s : Initiator) : Prop where
  agree : s.Agree
  unique : ∀ i j, ∀ r ∈ s.rows, s.Live i → s.Live j → s.Owns i r → s.Owns j r → i = j
  unflagged : ∀ i apikey name serverName, s.login = .selected i apikey name serverName →
    ∀ r ∈ s.rows, r.is (some apikey) name = true → r.connected ≠ some true

/-- The flags after a statement over the table. -/
theorem agree_setConnected {c : Bool} {apikey : Option Bytes}
    (hr : s'.rows = setConnected s.rows c apikey name) : s'.Agree ↔ ∀ r ∈ s.rows,
      (if r.is apikey name then c = true else r.connected = some true) ↔
        ∃ i, s'.Live i ∧ s'.Owns i r := by
  unfold Agree
  rw [hr, forall_setConnected]
  refine forall₂_congr fun r _ => ?_
  by_cases h : r.is apikey name = true
  · simp only [h, if_true, Option.some.injEq]
    rfl
  · simp only [h]
    rfl

/-- The key and the name of a session stand for the rows that the ones it has do. -/
theorem is_of_has {p : Bytes × Bytes} (h : s.Has i p = true) :
    r.is (s.session i).apikey (s.session i).name = r.is (some p.1) p.2 := by
  simp only [Has, Bool.and_eq_true, decide_eq_true_eq, Option.any_eq_true] at h
  obtain ⟨⟨apikey, hkey, hp⟩, hn⟩ := h
  rw [Bool.eq_iff_iff, hkey, hn, Row.is_some, Row.is_some, hp]

theorem has_of_is {p : Bytes × Bytes} (h : r.is (some p.1) p.2 = true)
    (hi : r.is (s.session i).apikey (s.session i).name = true) : s.Has i p = true := by
  cases hkey : (s.session i).apikey with
  | none => simp [hkey, Row.is_none] at hi
  | some apikey =>
    rw [hkey, Row.is_same h] at hi
    simp [Has, hkey, hi.1, hi.2]

section
variable (hP : Progress s)
include hP

theorem Same.owner (hs : Same s s') : s'.Live i ∧ s'.Owns i r ↔ s.Live i ∧ s.Owns i r := by
  unfold Live Owns
  rw [hs.row, hs.closed]
  refine ⟨fun ⟨⟨_, hc⟩, p, hp, hr⟩ => ⟨⟨?_, hc⟩, p, hp, hr⟩, fun ⟨⟨hi, hc⟩, h⟩ => ⟨⟨?_, hc⟩, h⟩⟩
  · by_contra hn
    rw [hP.fresh i (not_lt.1 hn)] at hp
    cases hp
  · exact hi.trans_le hs.next

theorem Same.agree (hs : Same s s') : s'.Agree ↔ s.Agree := by
  unfold Agree
  rw [hs.rows]
  simp only [hs.owner hP]

variable (hF : Flags s)
include hF

omit hP in
theorem Flags.unowned (hl : s.login = .selected i apikey name serverName) (hr : r ∈ s.rows)
    (his : r.is (some apikey) name = true) (hj : s.Live j) : ¬ s.Owns j r :=
  fun ho => hF.unflagged i apikey name serverName hl r hr his ((hF.agree r hr).2 ⟨j, hj, ho⟩)

/-- The UPDATE of a login leaves the flags right iff its session is still live. -/
theorem update_agree (hl : s.login = .selected i apikey name serverName) :
    (s.setConnectedTrue i apikey name serverName).Agree ↔ s.Live i := by
  obtain ⟨-, hrow, r₀, hr₀, his₀⟩ := hP.selected i apikey name serverName hl
  rw [agree_setConnected rfl]
  simp only [live_setConnectedTrue, owns_setConnectedTrue]
  constructor
  · intro h
    obtain ⟨j, hj, ho⟩ := (h r₀ hr₀).1 (by rw [if_pos his₀]; trivial)
    by_cases hji : j = i
    · exact hji ▸ hj
    · rw [if_neg hji] at ho
      exact absurd ho (hF.unowned hl hr₀ his₀ hj)
  · intro hi r hr
    by_cases his : r.is (some apikey) name = true
    · rw [if_pos his]
      exact iff_of_true trivial ⟨i, hi, by rwa [if_pos rfl]⟩
    · rw [if_neg his, hF.agree r hr]
      refine exists_congr fun j => and_congr_right fun _ => ?_
      by_cases hji : j = i
      · -- before the UPDATE the session had no row
        subst hji
        simp [Owns, hrow, his]
      · rw [if_neg hji]

theorem Flags.update (hl : s.login = .selected i apikey name serverName) (hi : s.Live i) :
    Flags (s.setConnectedTrue i apikey name serverName) where
  agree := (update_agree hP hF hl).2 hi
  unique j k := by
    refine forall_setConnected.2 fun r hr hj hk hoj hok => ?_
    rw [live_setConnectedTrue] at hj hk
    rw [owns_ite, owns_setConnectedTrue] at hoj hok
    by_cases his : r.is (some apikey) name = true
    · -- no session but `i` has the row the UPDATE flags
      have h (j : SessionId) (hj : s.Live j)
          (ho : if j = i then r.is (some apikey) name = true else s.Owns j r) : j = i := by
        by_contra hji
        rw [if_neg hji] at ho
        exact hF.unowned hl hr his hj ho
      rw [h j hj hoj, h k hk hok]
    · split at hoj
      · exact absurd hoj his
      split at hok
      · exact absurd hok his
      exact hF.unique j k r hr hj hk hoj hok
  unflagged _ _ _ _ h := by cases h

/-- A close leaves the flags right iff it clears its own session's row and no other's. -/
theorem close_agree : (s.close i).Agree ↔ s.Keeps (.close i) := by
  rw [agree_setConnected rfl]
  simp only [live_close, owns_close]
  constructor
  · refine fun h => ⟨fun hi p hp => ?_, fun j _ hji hj p hp hhas => ?_⟩
    · obtain ⟨r, hr, his⟩ := hP.listed i p hp
      by_contra hhas
      have hflag : r.connected = some true := (hF.agree r hr).2 ⟨i, hi, p, hp, his⟩
      obtain ⟨j, ⟨hji, hj⟩, ho⟩ := (h r hr).1 (by
        rw [if_neg fun h => hhas (has_of_is his h)]
        exact hflag)
      exact hji (hF.unique j i r hr hj hi ho ⟨p, hp, his⟩)
    · obtain ⟨r, hr, his⟩ := hP.listed j p hp
      have hc := (h r hr).2 ⟨j, ⟨hji, hj⟩, p, hp, his⟩
      rw [if_pos ((is_of_has hhas).trans his)] at hc
      cases hc
  · rintro ⟨hown, hother⟩ r hr
    by_cases his : r.is (s.session i).apikey (s.session i).name = true
    · rw [if_pos his]
      refine iff_of_false Bool.false_ne_true ?_
      rintro ⟨j, ⟨hji, hj⟩, p, hp, hp'⟩
      exact hother j hj.1 hji hj p hp (has_of_is hp' his)
    · rw [if_neg his, hF.agree r hr]
      refine exists_congr fun j => and_congr_left fun ho => ?_
      refine (and_iff_right_of_imp fun hj hji => ?_).symm
      obtain ⟨p, hp, hp'⟩ := ho
      subst hji
      exact his ((is_of_has (hown hj p hp)).trans hp')

theorem Flags.close (hk : s.Keeps (.close i)) : Flags (s.close i) where
  agree := (close_agree hP hF).2 hk
  unique j k := by
    refine forall_setConnected.2 fun r hr hj hk hoj hok => ?_
    rw [live_close] at hj hk
    rw [owns_ite, owns_close] at hoj hok
    exact hF.unique j k r hr hj.2 hk.2 hoj hok
  unflagged j k n serverName hl := by
    refine forall_setConnected.2 fun r hr his => ?_
    split
    · simp
    · rename_i h
      rw [if_neg h] at his
      exact hF.unflagged j k n serverName hl r hr his

theorem Flags.same (hs : Same s s')
    (hu : ∀ i apikey name serverName, s'.login = .selected i apikey name serverName →
      ∀ r ∈ s.rows, r.is (some apikey) name = true → r.connected ≠ some true) : Flags s' where
  agree := (hs.agree hP).2 hF.agree
  unique j k r hr hj hk hoj hok := by
    rw [hs.rows] at hr
    obtain ⟨hj, hoj⟩ := (hs.owner hP).1 ⟨hj, hoj⟩
    obtain ⟨hk, hok⟩ := (hs.owner hP).1 ⟨hk, hok⟩
    exact hF.unique j k r hr hj hk hoj hok
  unflagged i k n serverName hl r hr := by
    rw [hs.rows] at hr
    exact hu i k n serverName hl r hr

omit hP in
/-- The rows of one key and one name have one owner, so one flag. -/
theorem Flags.one_flag {r₀ : Row} (hr₀ : r₀ ∈ s.rows) (his₀ : r₀.is (some apikey) name = true)
    (hc : r₀.connected = some false) (hr : r ∈ s.rows) (his : r.is (some apikey) name = true) :
    r.connected ≠ some true := by
  intro h
  obtain ⟨j, hj, p, hp, hp'⟩ := (hF.agree r hr).1 h
  have hsame := (Row.is_same his).1 hp'
  have h₀ := (hF.agree r₀ hr₀).2 ⟨j, hj, p, hp, (Row.is_same his₀).2 hsame⟩
  rw [hc] at h₀
  cases h₀

/-- A step leaves the flags right iff it meets the condition. -/
theorem Flags.agree_iff (h : step s a = some s') : s'.Agree ↔ s.Keeps a := by
  cases step_change h with
  | same hs _ hk | select hs _ _ _ _ _ hk | launch hs _ _ hk =>
    exact iff_of_true ((hs.agree hP).2 hF.agree) hk
  | update ha hl hs =>
    subst ha hs
    rw [update_agree hP hF hl]
    simp [Keeps, hl, Login.updating]
  | front hl hs hk =>
    subst hs
    refine iff_of_true (fun r hr => (hF.agree r hr).trans ?_) hk
    simp only [live_setFrontend, owns_setFrontend]
  | close ha hs =>
    subst ha hs
    exact close_agree hP hF

theorem Flags.step (hk : s.Keeps a) (h : step s a = some s') : Flags s' := by
  cases step_change h with
  | same hs hl _ =>
    exact hF.same hP hs fun i k n serverName h => hF.unflagged i k n serverName (hl.symm.trans h)
  | select hs _ _ _ hr hl _ =>
    refine hF.same hP hs fun _ _ _ _ h r hr' his => ?_
    rw [hl] at h
    cases h
    obtain ⟨r₀, hr₀, his₀, hc⟩ := hr
    exact hF.one_flag hr₀ his₀ hc hr' his
  | launch hs _ hl _ =>
    refine hF.same hP hs fun _ _ _ _ h => ?_
    rw [hl] at h
    cases h
  | update ha hl hs =>
    subst ha hs
    exact hF.update hP hl (hk _ (by rw [hl]; rfl))
  | front hl hs _ =>
    subst hs
    refine ⟨(hF.agree_iff hP h).2 hk, fun j k r hr hj hk hoj hok => ?_, fun _ _ _ _ h => by cases h⟩
    rw [live_setFrontend] at hj hk
    rw [owns_setFrontend] at hoj hok
    exact hF.unique j k r hr hj hk hoj hok
  | close ha hs =>
    subst ha hs
    exact hF.close hP hk

end

/-! ## Runs -/

theorem run_progress {rows : List Row} {C : Initiator → Act → Prop}
    (h : Run step C (init rows) s) : Progress s :=
  h.invariant (progress_init rows) fun _ _ _ hP _ => hP.step

theorem init_agree {rows : List Row} :
    (init rows).Agree ↔ ∀ r ∈ rows, r.connected ≠ some true := by
  refine forall₂_congr fun r _ => ⟨fun h hc => ?_, fun h => ⟨fun hc => absurd hc h, ?_⟩⟩
  · obtain ⟨i, hi, -⟩ := h.1 hc
    exact Nat.not_lt_zero i hi.1
  · rintro ⟨i, hi, -⟩
    exact absurd hi.1 (Nat.not_lt_zero i)

theorem run_flags {rows : List Row} (h0 : (init rows).Agree) (h : Run step Keeps (init rows) s) :
    Flags s := by
  refine h.invariant_with (J := Progress) ⟨h0, ?_, fun _ _ _ _ h => by cases h⟩
    (fun _ => run_progress) fun _ _ _ hF hP hk => hF.step hP hk
  exact fun i _ _ _ hi => absurd hi.1 (Nat.not_lt_zero i)

/-- A close that meets the condition clears the flags its session's login set. -/
theorem close_rows {p : Bytes × Bytes} (hk : s.Keeps (.close i)) (hi : s.Live i)
    (hp : (s.session i).row = some p) :
    (s.close i).rows = setConnected s.rows false (some p.1) p.2 := by
  refine List.map_congr_left fun r _ => ?_
  rw [is_of_has (hk.1 hi p hp)]

/-- A session without a key is let in as a row that is not flagged. -/
theorem login_free {auth : Ipc.AuthFrontToInitiator} {k : Nat} (hidle : s.login = .idle)
    (hi : i < s.next) (hkey : (s.session i).apikey = none)
    (hr : (s.rows.filter (·.is (some auth.apikey) auth.name))[k]? = some r)
    (hc : r.connected = some false) (hn : r.serverName = some serverName) :
    step s (.login i auth k) =
      some { s with login := .selected i auth.apikey auth.name serverName } := by
  obtain ⟨id, key, clientName, server, connected⟩ := r
  cases hc
  cases hn
  have hne : s.rows.filter (·.is (some auth.apikey) auth.name) ≠ [] :=
    List.ne_nil_of_mem (List.mem_of_getElem? hr)
  simp [step, hidle, hi, identifyFrontend, hkey, hne, hr]

theorem connected_setConnected {rows : List Row} {c : Bool} {k : Option Bytes} :
    ∀ r ∈ setConnected rows c k name, r.is k name = true → r.connected = some c := by
  refine forall_setConnected.2 fun r _ his => ?_
  by_cases h : r.is k name = true
  · rw [if_pos h]
  · rw [if_neg h] at his
    exact absurd his h

/-- For every table, the flags agree with the live sessions at the start iff none is set. From there
they agree along every run under `Keeps`, and a step that leaves one of its states leaves them right
iff it meets `Keeps`. A live session that closes then clears the flags of the rows it logged in as and
writes no other, and any of them can log in again. -/
theorem flags_agree (rows : List Row) :
    ((init rows).Agree ↔ ∀ r ∈ rows, r.connected ≠ some true) ∧
    ∀ s, (init rows).Agree → Run step Keeps (init rows) s → s.Agree ∧
      (∀ a s', step s a = some s' → (s'.Agree ↔ s.Keeps a)) ∧
      ∀ i p s', s.Keeps (.close i) → step s (.close i) = some s' → s.Live i →
        (s.session i).row = some p →
        s'.rows = setConnected s.rows false (some p.1) p.2 ∧
        ∀ j k r serverName, j < s'.next → (s'.session j).apikey = none → s'.login = .idle →
          (s'.rows.filter (·.is (some p.1) p.2))[k]? = some r → r.serverName = some serverName →
          step s' (.login j ⟨p.1, p.2⟩ k) =
            some { s' with login := .selected j p.1 p.2 serverName } := by
  refine ⟨init_agree, fun s h0 hrun => ?_⟩
  have hP := run_progress hrun
  have hF := run_flags h0 hrun
  refine ⟨hF.agree, fun a s' => hF.agree_iff hP, fun i p s' hk h hi hp => ?_⟩
  obtain ⟨-, h⟩ := Option.ite_none_right_eq_some.1 h
  cases h
  have hrows := close_rows hk hi hp
  refine ⟨hrows, fun j k r serverName hj hkey hidle hr hn => ?_⟩
  refine login_free hidle hj hkey hr ?_ hn
  obtain ⟨hm, his⟩ := List.mem_filter.1 (List.mem_of_getElem? hr)
  rw [hrows] at hm
  exact connected_setConnected r hm his

/-- Two clients with one key log in, and the first session closes. -/
theorem flags_agree_run : ∃ s s',
    Run step Keeps (init [.free 1 "k1" "alice", .free 2 "k1" "bob"]) s ∧
    step s (.close 0) = some s' ∧ s'.rows.map Row.connected = [some false, some true] ∧
    s'.Agree := by
  have h : (exec step Keeps (init [.free 1 "k1" "alice", .free 2 "k1" "bob"]) [.newSession,
      .newSession, .login 0 ⟨ascii "k1", ascii "alice"⟩ 0, .proceed, .proceed,
      .proceed, .login 1 ⟨ascii "k1", ascii "bob"⟩ 0, .proceed, .proceed, .proceed]).map (fun s =>
        decide (s.Keeps (.close 0)) && (step s (.close 0)).any fun s' =>
          decide (s'.rows.map Row.connected = [some false, some true])) = some true := by
    decide +kernel
  obtain ⟨s, hs, hout⟩ := Option.map_eq_some_iff.1 h
  rw [Bool.and_eq_true, Option.any_eq_true] at hout
  obtain ⟨hk, s', hs', hrows⟩ := hout
  have hrun := Run.of_exec .start hs
  have hagree := (flags_agree _).2 s ((flags_agree _).1.2 (by decide)) hrun
  exact ⟨s, s', hrun, hs', of_decide_eq_true hrows,
    (hagree.2.1 _ _ hs').2 (of_decide_eq_true hk)⟩

/-- A client whose server name is another one: its session closes and its flag stays. -/
theorem flags_disagree : ¬ ∀ (rows : List Row) (s : Initiator),
    (∀ r ∈ rows, r.connected ≠ some true) → Reach step (init rows) s → s.Agree := by
  intro hall
  have h : (exec step (fun _ _ => True)
      (init [⟨1, some (ascii "k1"), some (ascii "alice"), some (ascii "srv"), some false⟩])
      [.newSession, .login 0 ⟨ascii "k1", ascii "alice"⟩ 0, .proceed, .proceed, .proceed,
        .close 0]).map (fun s =>
          decide ((∃ r ∈ s.rows, r.connected = some true) ∧ ∀ i < s.next, ¬ s.Live i)) =
      some true := by
    decide +kernel
  obtain ⟨s, hs, hout⟩ := Option.map_eq_some_iff.1 h
  obtain ⟨⟨r, hr, hc⟩, hlive⟩ := of_decide_eq_true hout
  obtain ⟨i, hi, -⟩ := (hall _ s (by decide) (.of_exec .start hs) r hr).1 hc
  exact hlive i hi.1 hi

end Initiator

end Fix42
