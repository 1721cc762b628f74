import Mathlib.Data.List.Forall2
import Fix42.Wire.Output
import Fix42.Wire.Proof.Parse

/-!
# One message a receive

No input unit puts receives together or takes them apart. `forwarded_longer` and `forwarded_cut` say
that neither more nor less than a frame is forwarded as the frame, and `framing` that exactly the
frames of a stream are forwarded if and only if each of them arrived in a receive of its own.
-/

namespace Fix42

namespace Wire

open Getline

variable {H : Type*} {fix : FixHeader H} {n n' : BitVec 32}

/-! ## More or less than a frame -/

theorem parse_new {s : Parse H} {ps : List Bytes} (h : parse fix n ps (Parse.new fix) = .ok s) :
    s.headerComplet = false → s.map = [] := parse_open (fun _ => rfl) h

/-- What stands behind a closed message makes the map longer. -/
theorem forwarded_longer {x y : Bytes} {m m' : H × MapMessage} (hy : y ≠ [])
    (h : buildHeader fix n (x ++ [soh]) = .ok m)
    (h' : buildHeader fix n' (x ++ [soh] ++ y) = .ok m') : m.2.length < m'.2.length := by
  obtain ⟨s, hs, -, v, hmap, -⟩ := buildHeader_spec h
  obtain ⟨s', hs', -, v', hmap', -⟩ := buildHeader_spec h'
  rw [List.append_assoc, List.singleton_append, split_append_sep] at hs'
  obtain ⟨t, ht, hs'⟩ := parse_append.1 hs'
  rw [parse_congr hs] at ht
  cases ht
  have hc : s.headerComplet = true := by
    by_contra hc
    have hnil := parse_new hs (by simpa using hc)
    rw [hmap] at hnil
    simp at hnil
  obtain ⟨-, hlen⟩ := parse_complete hc hs'
  have hpos : 0 < (split soh y).length := List.length_pos_iff.2 (by simpa using hy)
  simp only [hmap, hmap', List.length_append, List.length_singleton] at hlen
  omega

/-- A message cut within a piece has as long a map only if the cut is in the last piece, and then no
beginning of the rest of that piece is a piece. -/
theorem forwarded_cut {x y z : Bytes} {m m' : H × MapMessage} (hfix : fix.Reports) (hx : x ≠ [])
    (hlast : x.getLast? ≠ some soh) (hy : soh ∉ y) (h : buildHeader fix n x = .ok m)
    (h' : buildHeader fix n' (x ++ y ++ soh :: z) = .ok m') (hm : m.2 = m'.2) :
    z = [] ∧ ∀ y₁ y₂, y = y₁ ++ y₂ → (split equals y₁).length ≠ 2 := by
  obtain ⟨ps, p, hsplit, hsplit'⟩ := split_cut (z := z) hx hlast hy
  obtain ⟨s₁, hs₁, -, v, hmap, -⟩ := buildHeader_spec h
  obtain ⟨s₃, hs₃, -, v', hmap', -⟩ := buildHeader_spec h'
  rw [hsplit] at hs₁
  rw [hsplit'] at hs₃
  obtain ⟨s, hs, hs₁⟩ := parse_append.1 hs₁
  obtain ⟨t, ht, hs₃⟩ := parse_append.1 hs₃
  rw [parse_congr hs] at ht
  cases ht
  obtain ⟨t₁, hp, hnil⟩ := parse_cons hs₁
  cases hnil
  obtain ⟨s₂, hp', hs₃⟩ := parse_cons hs₃
  obtain ⟨k, v₁, hkv, hacc⟩ := parsePiece_spec hp
  obtain ⟨k', v₂, hkv', hacc'⟩ := parsePiece_spec hp'
  -- the cut keeps the key, so the whole piece closes the header if its beginning does
  have hk : k' = k := by
    obtain ⟨r, rfl, hr⟩ := split_key hkv
    rw [List.append_assoc, List.cons_append, split_append_cons hr] at hkv'
    exact (List.cons.inj hkv').1.symm
  have hone : s₁.map.length = m.2.length + 1 := by simp [hmap]
  have hall : s₃.map.length = m.2.length + 1 := by simp [hmap', hm]
  have hz : (split soh z).length = 0 := by
    cases hacc with
    | body hc _ _ hm₁ =>
      cases hacc' with
      | body _ hc₂ _ hm₂ =>
        obtain ⟨-, hlen⟩ := parse_complete hc₂ hs₃
        simp only [hm₁, hm₂, List.length_append, List.length_singleton] at hone hlen
        omega
      | first hc' => simp [hc] at hc'
      | header hc' => simp [hc] at hc'
    | first hc _ hi _ hm₁ =>
      have hs0 := parse_new hs hc
      rw [hs0, List.nil_append] at hm₁
      have hkey : k = ascii "10" := by
        rw [hm₁] at hmap
        rw [hm₁, List.length_singleton] at hone
        have hm0 : m.2 = [] := List.eq_nil_of_length_eq_zero (by omega)
        rw [hm0, List.nil_append] at hmap
        exact (Prod.mk.inj (List.cons.inj hmap).1).1
      have hrep := hfix k (by rw [hkey]; decide) v₂ s.header
      cases hacc' with
      | body hc' => simp [hc] at hc'
      | first _ hc₂ _ _ hm₂ =>
        obtain ⟨-, hlen⟩ := parse_complete hc₂ hs₃
        simp only [hm₁, hm₂, hs0, List.length_append, List.length_singleton, List.length_nil]
          at hone hlen
        omega
      | header _ _ hi₂ _ =>
        rw [hk, hrep] at hi₂
        cases hi₂
    | header hc _ _ hm₁ =>
      rw [hm₁, parse_new hs hc] at hone
      simp at hone
  refine ⟨by simpa using hz, fun y₁ y₂ he => ?_⟩
  subst he
  exact length_cut (by rw [hkv]; rfl) (by rw [hkv']; rfl)

/-- No receive that ends within a frame is forwarded as the frame, if the next one is forwarded. -/
theorem not_forwarded_short {x y c l stream : Bytes} {m m' : H × MapMessage} (hfix : fix.Reports)
    (hx : x ≠ []) (hy : y ≠ []) (closed : (x ++ y).getLast? = some soh)
    (hf : buildHeader fix n (x ++ y) = .ok m) (h : buildHeader fix n' x = .ok m) (hc : c ≠ [])
    (hnext : c ++ l = y ++ stream) (h' : buildHeader fix n c = .ok m') : False := by
  by_cases hlast : x.getLast? = some soh
  · obtain ⟨x₀, a, rfl⟩ := (List.eq_nil_or_concat' x).resolve_left hx
    have ha : a = soh := by simpa using hlast
    subst ha
    exact Nat.lt_irrefl _ (forwarded_longer hy h hf)
  · -- up to its next SOH, `y` is the rest of a piece
    have hmem : soh ∈ y := by
      rw [List.getLast?_append_of_ne_nil _ hy] at closed
      exact List.mem_of_getLast? closed
    obtain ⟨y₀, z, rfl, hy₀⟩ := List.eq_append_cons_of_mem hmem
    rw [← List.append_assoc] at hf
    obtain ⟨rfl, hpre⟩ := forwarded_cut hfix hx hlast hy₀ h hf rfl
    rw [List.append_assoc, List.singleton_append] at hnext
    obtain ⟨y₁, y₂, he, hpiece⟩ := exists_mem_split hc hy₀ hnext
    exact hpre y₁ y₂ he (length_piece h' hpiece)

/-! ## The frames of a stream -/

variable {w : Nat} {g : BitVec w → BitVec 32}

/-- The outputs of a unit when all are messages: each is from one receive. -/
theorem process_eq {build : BitVec w → Bytes → Except Stop (H × MapMessage)}
    {receives : List (BitVec w × Bytes)} {ms : List (H × MapMessage)} :
    process build receives = ms.map .ok ↔
      List.Forall₂ (fun r m => build r.1 r.2 = .ok m) receives ms := by
  induction receives generalizing ms with
  | nil =>
    cases ms with
    | nil => simp [process]
    | cons m ms => exact ⟨fun h => (by cases h), fun h => (by cases h)⟩
  | cons r rest ih =>
    unfold process
    cases ms with
    | nil =>
      refine ⟨fun h => ?_, fun h => (by cases h)⟩
      split at h <;> cases h
    | cons m ms =>
      rw [List.forall₂_cons, ← ih, List.map_cons]
      split
      · rename_i hthrow
        simp [hthrow]
      · rw [List.cons.injEq]

/-- If each receive is forwarded as a frame of the stream, it is the frame. -/
theorem receives_eq (hfix : fix.Reports) {receives : List (BitVec w × Bytes)}
    {frames : List (Frame fix)}
    (h : List.Forall₂ (fun r f => buildHeader fix (g r.1) r.2 = .ok f.message) receives frames)
    (hne : ∀ r ∈ receives, r.2 ≠ [])
    (he : (receives.map Prod.snd).flatten = (frames.map Frame.data).flatten) :
    receives.map Prod.snd = frames.map Frame.data := by
  induction h with
  | nil => rfl
  | @cons r f rest fs hr hrest ih =>
    simp only [List.map_cons, List.flatten_cons] at he
    have hx : r.2 ≠ [] := hne r List.mem_cons_self
    have hne' : ∀ r ∈ rest, r.2 ≠ [] := fun r hr => hne r (List.mem_cons_of_mem _ hr)
    obtain ⟨n, hf⟩ := f.accepted
    have hfirst : r.2 = f.data := by
      rcases List.append_eq_append_iff.1 he with ⟨y, hxy, hmore⟩ | ⟨y, hxy, -⟩
      · by_contra hd
        have hy : y ≠ [] := by
          rintro rfl
          exact hd (by rw [hxy, List.append_nil])
        cases hrest with
        | nil => exact hy (List.append_eq_nil_iff.1 hmore.symm).1
        | @cons r' f' _ _ hr' _ =>
          exact not_forwarded_short hfix hx hy (hxy ▸ f.closed) (hxy ▸ hf) hr
            (hne' r' List.mem_cons_self) hmore (buildHeader_congr hr')
      · by_cases hy : y = []
        · rw [hxy, hy, List.append_nil]
        · obtain ⟨f₀, a, hf₀⟩ := (List.eq_nil_or_concat' f.data).resolve_left fun hn => by
            simpa [hn] using f.closed
          have ha : a = soh := by simpa [hf₀] using f.closed
          subst ha
          rw [hf₀] at hf
          rw [hxy, hf₀] at hr
          exact absurd (forwarded_longer hy hf hr) (Nat.lt_irrefl _)
    rw [hfirst] at he
    rw [List.map_cons, List.map_cons, hfirst, ih hne' (List.append_cancel_left he)]

/-- A unit forwards exactly the frames of a stream if and only if each arrived alone. -/
theorem process_frames (hfix : fix.Reports) {receives : List (BitVec w × Bytes)}
    {frames : List (Frame fix)}
    (h : Receives (receives.map Prod.snd) (frames.map Frame.data).flatten) :
    process (fun k => buildHeader fix (g k)) receives = frames.map (.ok ·.message) ↔
      receives.map Prod.snd = frames.map Frame.data := by
  have hmap : frames.map (fun f => Except.ok (ε := Stop) f.message) =
      (frames.map Frame.message).map .ok := by rw [List.map_map]; rfl
  rw [hmap, process_eq, List.forall₂_map_right_iff]
  constructor
  · intro hall
    refine receives_eq hfix hall (fun r hr => ?_) h.1
    exact (h.2 r.2 (List.mem_map_of_mem hr)).1
  · intro he
    rw [← List.forall₂_eq_eq_eq, List.forall₂_map_left_iff, List.forall₂_map_right_iff] at he
    refine he.imp fun r f hrf => ?_
    obtain ⟨n, hf⟩ := f.accepted
    rw [hrf]
    exact buildHeader_congr hf

/-- **One message a receive**: of every stream of frames, received in whatever pieces, the input units
forward exactly the frames if and only if each piece is one frame. -/
theorem framing (fix : FixHeader H) (hfix : fix.Reports) (frames : List (Frame fix)) :
    (∀ receives, Receives (receives.map Prod.snd) (frames.map Frame.data).flatten →
      (Server.input fix receives = frames.map (.ok ·.message) ↔
        receives.map Prod.snd = frames.map Frame.data)) ∧
    ∀ receives, Receives (receives.map Prod.snd) (frames.map Frame.data).flatten →
      (Client.input fix receives = frames.map (.ok ·.message) ↔
        receives.map Prod.snd = frames.map Frame.data) :=
  ⟨fun _ h => process_frames hfix h, fun _ h => process_frames hfix h⟩

/-! ## One heartbeat -/

def heartbeatHeader : Header :=
  Server.header (ascii "EX") (ascii "A") 1 midnight ⟨48, []⟩

/-- A heartbeat to the user `A`, without a body. -/
def heartbeat : Frame FixHeader.table where
  data := addCheckSum (heartbeatHeader.fields.flatMap Field.render)
  message := ((heartbeatHeader.fields.map Field.pair).reverse, [])
  closed := by decide +kernel
  fits := by decide +kernel
  accepted := ⟨1, by decide +kernel⟩

/-- Neither unit forwards anything of a heartbeat that arrives in two receives, or of two that arrive
in one. -/
theorem heartbeat_cut :
    Receives [heartbeat.data.take 10, heartbeat.data.drop 10] heartbeat.data ∧
    (Server.input FixHeader.table [(1, heartbeat.data.take 10), (2, heartbeat.data.drop 10)]
      ).filterMap Except.toOption = [] ∧
    (Client.input FixHeader.table [(1, heartbeat.data.take 10), (2, heartbeat.data.drop 10)]
      ).filterMap Except.toOption = [] ∧
    Receives [heartbeat.data ++ heartbeat.data] (heartbeat.data ++ heartbeat.data) ∧
    (Server.input FixHeader.table [(1, heartbeat.data ++ heartbeat.data)]
      ).filterMap Except.toOption = [] ∧
    (Client.input FixHeader.table [(1, heartbeat.data ++ heartbeat.data)]
      ).filterMap Except.toOption = [] := by
  refine ⟨⟨by simp, by decide +kernel⟩, by decide +kernel, by decide +kernel,
    ⟨by simp, by decide +kernel⟩, by decide +kernel, by decide +kernel⟩

/-- Two heartbeats that arrive alone are forwarded. -/
theorem heartbeat_alone :
    Server.input FixHeader.table [(1, heartbeat.data), (2, heartbeat.data)] =
      [.ok heartbeat.message, .ok heartbeat.message] ∧
    Client.input FixHeader.table [(1, heartbeat.data), (2, heartbeat.data)] =
      [.ok heartbeat.message, .ok heartbeat.message] := by
  have hfix : FixHeader.table.Reports := fun k hk v h => if_neg hk
  obtain ⟨h1, h2⟩ := framing FixHeader.table hfix [heartbeat, heartbeat]
  refine ⟨(h1 _ ⟨by simp, by decide +kernel⟩).2 rfl, (h2 _ ⟨by simp, by decide +kernel⟩).2 rfl⟩

end Wire

end Fix42
