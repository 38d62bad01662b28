import Mymuduo.BufferRefinement

namespace Mymuduo.Net

open Execution Slice

def BufferOp.requested : BufferOp → ℕ
  | append data | prepend data => data.length
  | ensureWriteableBytes len => len
  | readFd (.read bytes) => bytes.length
  | readFd (.error _) | retrive _ | retrieveAll | retriveAsString _ | retriveAllAsString
  | writeFd _ => 0

namespace Buffer

def after (b : Buffer) (op : BufferOp) : Option Buffer := (b.step op).map Prod.fst

/-- What a call needs in all: the content that it finds and the bytes it asks to add. -/
def demand (b : Buffer) (op : BufferOp) : ℕ := b.readableBytes + op.requested

def peak (b : Buffer) (ops : List BufferOp) : ℕ :=
  (collect after (fun b op _ ↦ [b.demand op]) b ops).foldl max 0

variable {b b' : Buffer} {op : BufferOp} {len : ℕ}

/-- The vector grows from `writeIndex_` on, and only when the space in front of the
content is less than what is asked for. -/
theorem makeSpace_bufferSize (h : b.WF) (hb : b.makeSpace len = some b') :
    b'.bufferSize ≤ max b.bufferSize (2 * (b.readableBytes + len) + kCheapPrepend) := by
  have hr := h.read_le_write
  rw [makeSpace] at hb
  split_ifs at hb with hroom
  · have hsize := resize_length b.buffer (b.writeIndex + len)
    rw [← Option.some.inj hb]
    simp only [writeableBytes, prependableBytes, readableBytes, bufferSize] at hroom ⊢
    omega
  · obtain ⟨moved, hmoved, hb⟩ := Option.bind_eq_some_iff.mp hb
    have hsize := copyWithin_length hmoved
    cases Option.some.inj hb
    simp only [bufferSize]
    omega

theorem ensureWriteableBytes_bufferSize (h : b.WF) (hb : b.ensureWriteableBytes len = some b') :
    b'.bufferSize ≤ max b.bufferSize (2 * (b.readableBytes + len) + kCheapPrepend) := by
  rw [ensureWriteableBytes] at hb
  split at hb
  · exact makeSpace_bufferSize h hb
  · rw [Option.some.inj hb]
    exact Nat.le_max_left ..

theorem append_bufferSize (h : b.WF) {data : List Byte} (hb : b.append data = some b') :
    b'.bufferSize ≤ max b.bufferSize (2 * (b.readableBytes + data.length) + kCheapPrepend) := by
  simp only [append, Option.bind_eq_bind, Option.bind_eq_some_iff, Option.pure_def,
    Option.some.injEq] at hb
  obtain ⟨b₁, hb₁, written, hwritten, rfl⟩ := hb
  have hspace := ensureWriteableBytes_bufferSize h hb₁
  rwa [bufferSize, ← writeAt_length hwritten] at hspace

theorem prepend_length {data : List Byte} (hb : b.prepend data = some b') :
    data.length ≤ b.prependableBytes ∧ b'.bufferSize = b.bufferSize := by
  simp only [prepend, Option.bind_eq_bind, Option.pure_def] at hb
  split at hb
  · cases hb
  · rename_i hlen
    obtain ⟨written, hwritten, hb⟩ := Option.bind_eq_some_iff.mp hb
    rw [← Option.some.inj hb]
    exact ⟨Nat.le_of_not_lt hlen, writeAt_length hwritten⟩

theorem retrive_bufferSize (b : Buffer) (len : ℕ) : (b.retrive len).bufferSize = b.bufferSize := by
  rw [retrive]
  split
  · rfl
  · rfl

theorem retriveAsString_retrives {s : List Byte} (hb : b.retriveAsString len = some (s, b')) :
    b' = b.retrive len := by
  obtain ⟨result, -, hb⟩ := Option.bind_eq_some_iff.mp hb
  exact (congrArg Prod.snd (Option.some.inj hb)).symm

theorem writeFd_retrives {n : WriteResult} {taken : List Byte}
    (hb : b.writeFd n = some (taken, b')) : ∃ len, b' = b ∨ b' = b.retrive len := by
  obtain ⟨offered, -, hb⟩ := Option.bind_eq_some_iff.mp hb
  cases n with
  | wrote n => exact ⟨n, .inr (congrArg Prod.snd (Option.some.inj hb)).symm⟩
  | error err => exact ⟨0, .inl (congrArg Prod.snd (Option.some.inj hb)).symm⟩

/-- What `readv` puts into `extrabuf` is appended to a vector that is full by then. -/
theorem readFd_cases {bytes : List Byte} (h : b.WF) (hb : b.readFd (.read bytes) = some b') :
    b'.WF ∧ b'.bufferSize ≤
      max b.bufferSize (2 * (b.readableBytes + bytes.length) + kCheapPrepend) := by
  simp only [readFd, Option.bind_eq_bind, Option.bind_eq_some_iff, Option.pure_def] at hb
  obtain ⟨filled, hfilled, extrabuf, hextra, hb⟩ := hb
  have hsize := writeAt_length hfilled
  have hr := h.read_le_write
  have hw := h.write_le_size
  have hc := h.cheap_le_size
  split at hb
  · rename_i hfits
    simp only [writeableBytes] at hfits
    rw [← Option.some.inj hb]
    refine ⟨⟨?_, ?_, ?_⟩, ?_⟩
    · dsimp only
      omega
    · dsimp only
      omega
    · dsimp only
      omega
    · simp only [bufferSize]
      omega
  · rename_i hover
    simp only [writeableBytes, Nat.not_le] at hover
    have hfull : WF ⟨filled, b.readIndex, filled.length⟩ :=
      ⟨by dsimp only; omega, Nat.le_refl _, by dsimp only; omega⟩
    have hrest : (slice extrabuf 0 (bytes.length - b.writeableBytes)).length ≤
        bytes.length - b.writeableBytes := by
      simp only [slice, List.drop_zero]
      exact List.length_take_le ..
    obtain ⟨b₁, hb₁, hwf, -⟩ :=
      append_spec hfull (slice extrabuf 0 (bytes.length - b.writeableBytes))
    cases hb₁.symm.trans hb
    have hbound := append_bufferSize hfull hb₁
    simp only [bufferSize, readableBytes, writeableBytes] at hbound hrest ⊢
    exact ⟨hwf, by omega⟩

/-- No call leaves the vector larger than twice its demand, unless it was so before. -/
theorem after_cases (h : b.WF) (hb : b.after op = some b') :
    b'.WF ∧ b'.bufferSize ≤ max b.bufferSize (2 * b.demand op + kCheapPrepend) := by
  obtain ⟨⟨b₁, answer⟩, hstep, rfl⟩ := Option.map_eq_some_iff.mp hb
  have hsame {n : ℕ} {b' : Buffer} (heq : b'.bufferSize = b.bufferSize) :
      b'.bufferSize ≤ max b.bufferSize n := heq ▸ Nat.le_max_left ..
  cases op with
  | append data =>
    obtain ⟨b₂, hb₂, heq⟩ := Option.map_eq_some_iff.mp hstep
    cases heq
    obtain ⟨b₃, hb₃, hwf, -⟩ := append_spec h data
    cases hb₂.symm.trans hb₃
    exact ⟨hwf, append_bufferSize h hb₂⟩
  | prepend data =>
    obtain ⟨b₂, hb₂, heq⟩ := Option.map_eq_some_iff.mp hstep
    cases heq
    obtain ⟨hlen, hsize⟩ := prepend_length hb₂
    obtain ⟨b₃, hb₃, hwf, -⟩ := prepend_spec h hlen
    cases hb₂.symm.trans hb₃
    exact ⟨hwf, hsame hsize⟩
  | retrive len =>
    cases hstep
    exact ⟨retrive_wf h len, hsame (b.retrive_bufferSize len)⟩
  | retrieveAll =>
    cases hstep
    exact ⟨retrieveAll_wf h, hsame rfl⟩
  | retriveAsString len =>
    obtain ⟨⟨s, b₂⟩, hb₂, heq⟩ := Option.map_eq_some_iff.mp hstep
    cases heq
    rw [retriveAsString_retrives hb₂]
    exact ⟨retrive_wf h len, hsame (b.retrive_bufferSize len)⟩
  | retriveAllAsString =>
    obtain ⟨⟨s, b₂⟩, hb₂, heq⟩ := Option.map_eq_some_iff.mp hstep
    cases heq
    rw [retriveAsString_retrives hb₂]
    exact ⟨retrive_wf h _, hsame (b.retrive_bufferSize _)⟩
  | ensureWriteableBytes len =>
    obtain ⟨b₂, hb₂, heq⟩ := Option.map_eq_some_iff.mp hstep
    cases heq
    obtain ⟨b₃, hb₃, hwf, -⟩ := ensureWriteableBytes_spec h len
    cases hb₂.symm.trans hb₃
    exact ⟨hwf, ensureWriteableBytes_bufferSize h hb₂⟩
  | readFd n =>
    obtain ⟨b₂, hb₂, heq⟩ := Option.map_eq_some_iff.mp hstep
    cases heq
    cases n with
    | read bytes => exact readFd_cases h hb₂
    | error err =>
      cases Option.some.inj hb₂
      exact ⟨h, hsame rfl⟩
  | writeFd n =>
    obtain ⟨⟨taken, b₂⟩, hb₂, heq⟩ := Option.map_eq_some_iff.mp hstep
    cases heq
    obtain ⟨len, rfl | rfl⟩ := writeFd_retrives hb₂
    · exact ⟨h, hsame rfl⟩
    · exact ⟨retrive_wf h len, hsame (b.retrive_bufferSize len)⟩

theorem run_wf {initialSize : ℕ} {ops : List BufferOp}
    (h : run after (new initialSize) ops = some b) : b.WF :=
  run_preserves (fun _ _ _ hb hafter ↦ (after_cases hb hafter).1) (new_wf initialSize) h

/-- However many calls there were, the vector is no larger than it was at first or than
twice the largest demand. -/
theorem bufferSize_le_peak (initialSize : ℕ) {ops : List BufferOp}
    (h : run after (new initialSize) ops = some b) :
    b.bufferSize ≤
      max (initialSize + kCheapPrepend) (2 * peak (new initialSize) ops + kCheapPrepend) := by
  have hnew : (new initialSize).bufferSize ≤ max (initialSize + kCheapPrepend) kCheapPrepend := by
    rw [bufferSize, new, List.length_replicate, Nat.add_comm]
    exact Nat.le_max_left ..
  have hrun := run_collects
    (P := fun b l ↦ b.WF ∧
      b.bufferSize ≤ max (initialSize + kCheapPrepend) (2 * l.foldl max 0 + kCheapPrepend))
    (f := fun b op _ ↦ [b.demand op]) (H := fun _ ↦ True) ?_ (l := [])
    ⟨new_wf initialSize, by simpa using hnew⟩ (fun _ _ ↦ trivial) h
  · exact hrun.2
  · rintro b l op b' ⟨hwf, hbound⟩ - hafter
    obtain ⟨hwf', hstep⟩ := after_cases hwf hafter
    refine ⟨hwf', ?_⟩
    rw [List.foldl_append, List.foldl_cons, List.foldl_nil]
    omega

def mixedOps : List BufferOp :=
  [.append [1, 2, 3, 4, 5], .prepend [9, 9], .retrive 4, .readFd (.error .EINTR), .append [6, 7, 8],
    .ensureWriteableBytes 20, .writeFd (.wrote 2), .retrieveAll]

theorem bufferSize_le_peak_mixed :
    ∃ b, run after (new 3) mixedOps = some b ∧
      b.bufferSize ≤ max (3 + kCheapPrepend) (2 * peak (new 3) mixedOps + kCheapPrepend) := by
  have hsome : (run after (new 3) mixedOps).isSome = true := by decide +kernel
  obtain ⟨b, hb⟩ := Option.isSome_iff_exists.mp hsome
  exact ⟨b, hb, bufferSize_le_peak 3 hb⟩

def Moves (b : Buffer) (len : ℕ) : Prop :=
  len + kCheapPrepend ≤ b.writeableBytes + b.prependableBytes

instance (b : Buffer) (len : ℕ) : Decidable (b.Moves len) := inferInstanceAs (Decidable (_ ≤ _))

/-- In a buffer that its operations have left behind `makeSpace` makes the space that it is
asked for and keeps the content; what it moves, it moves towards the front and inside
the vector. -/
theorem makeSpace_sound (initialSize : ℕ) {ops : List BufferOp}
    (h : run after (new initialSize) ops = some b) (hlen : b.writeableBytes < len) :
    ∃ b', b.makeSpace len = some b' ∧ len ≤ b'.writeableBytes ∧ b'.readable = b.readable ∧
      (b.Moves len → kCheapPrepend < b.readIndex ∧
        b'.writeIndex = kCheapPrepend + b.readableBytes ∧ b'.writeIndex ≤ b'.bufferSize) := by
  obtain ⟨b', hb', hwf, hread, hspace⟩ := makeSpace_spec (run_wf h) hlen
  refine ⟨b', hb', hspace, hread, fun hmoves ↦ ⟨?_, ?_, hwf.write_le_size⟩⟩
  · simp only [Moves, prependableBytes] at hmoves
    omega
  · rw [makeSpace, if_neg (Nat.not_lt.mpr hmoves)] at hb'
    obtain ⟨moved, -, hb'⟩ := Option.bind_eq_some_iff.mp hb'
    rw [← Option.some.inj hb']

def prependedOps : List BufferOp :=
  [.append [1, 2, 3, 4, 5, 6, 7, 8, 9, 10], .retrive 8, .prepend [11, 12]]

theorem makeSpace_sound_prepended :
    ∃ b, run after (new 10) prependedOps = some b ∧ b.Moves 4 ∧
      ∃ b', b.makeSpace 4 = some b' ∧ 4 ≤ b'.writeableBytes ∧ b'.readable = b.readable ∧
        (b.Moves 4 → kCheapPrepend < b.readIndex ∧
          b'.writeIndex = kCheapPrepend + b.readableBytes ∧ b'.writeIndex ≤ b'.bufferSize) := by
  have hrun : run after (new 10) prependedOps = some
      ⟨[0, 0, 0, 0, 0, 0, 0, 0, 1, 2, 3, 4, 5, 6, 11, 12, 9, 10], 14, 18⟩ := by decide +kernel
  exact ⟨_, hrun, by decide, makeSpace_sound 10 hrun (by decide)⟩

end Buffer

end Mymuduo.Net
