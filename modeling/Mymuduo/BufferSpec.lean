import Mymuduo.Buffer
import Mathlib.Data.Nat.Basic
import Mathlib.Tactic.SplitIfs

namespace Mymuduo.Net.Buffer

open Slice

variable {b : Buffer}

theorem new_wf (initialSize : ℕ) : (new initialSize).WF :=
  ⟨le_rfl, by simp [new], by simp [new]⟩

@[simp] theorem readable_new (initialSize : ℕ) : (new initialSize).readable = [] :=
  slice_self _ _

theorem readable_length (h : b.WF) : b.readable.length = b.readableBytes :=
  slice_length h.write_le_size

theorem peek_eq (h : b.WF) {len : ℕ} (hlen : len ≤ b.readableBytes) :
    b.peek len = some (b.readable.take len) := by
  have hr := h.read_le_write
  have hw := h.write_le_size
  simp only [readableBytes] at hlen
  rw [peek, readAt_eq_some (by omega), readable, slice_take (by omega)]

theorem peek_readableBytes (h : b.WF) : b.peek b.readableBytes = some b.readable := by
  rw [peek_eq h le_rfl, ← readable_length h, List.take_length]

theorem retrieveAll_wf (h : b.WF) : b.retrieveAll.WF :=
  ⟨le_rfl, h.cheap_le_size, h.cheap_le_size⟩

@[simp] theorem readable_retrieveAll : b.retrieveAll.readable = [] := slice_self _ _

theorem retrive_wf (h : b.WF) (len : ℕ) : (b.retrive len).WF := by
  rw [retrive]
  split
  · rename_i hlen
    have hr := h.read_le_write
    simp only [readableBytes] at hlen
    exact ⟨by dsimp only; omega, h.write_le_size, h.cheap_le_size⟩
  · exact retrieveAll_wf h

theorem readable_retrive (h : b.WF) (len : ℕ) :
    (b.retrive len).readable = b.readable.drop len := by
  rw [retrive]
  split
  · simp only [readable, slice_drop]
  · rename_i hlen
    rw [readable_retrieveAll, List.drop_eq_nil_of_le]
    rw [readable_length h]
    omega

theorem retriveAsString_eq (h : b.WF) {len : ℕ} (hlen : len ≤ b.readableBytes) :
    b.retriveAsString len = some (b.readable.take len, b.retrive len) := by
  simp [retriveAsString, peek_eq h hlen]

theorem retriveAllAsString_eq (h : b.WF) :
    b.retriveAllAsString = some (b.readable, b.retrive b.readableBytes) := by
  simp only [retriveAllAsString, retriveAsString, peek_readableBytes h, Option.bind_eq_bind,
    Option.bind_some, Option.pure_def]

theorem resize_length (xs : List Byte) (n : ℕ) : (resize xs n).length = n := by
  simp only [resize, List.length_append, List.length_take, List.length_replicate]
  omega

/-- Space is made either by growing the vector or by moving the readable bytes
to the front; the second happens only with room in front of them. -/
theorem makeSpace_spec (h : b.WF) {len : ℕ} (hlen : b.writeableBytes < len) :
    ∃ b', b.makeSpace len = some b' ∧ b'.WF ∧ b'.readable = b.readable ∧
      len ≤ b'.writeableBytes := by
  have hr := h.read_le_write
  have hw := h.write_le_size
  have hc := h.cheap_le_size
  simp only [writeableBytes] at hlen
  rw [makeSpace]
  split
  · have hsize := resize_length b.buffer (b.writeIndex + len)
    refine ⟨_, rfl, ⟨hr, ?_, ?_⟩, ?_, ?_⟩
    · dsimp only
      omega
    · dsimp only
      omega
    · simp only [readable, resize]
      rw [List.take_of_length_le (by omega), slice_append_of_le hw]
    · simp only [writeableBytes]
      omega
  · rename_i hroom
    simp only [writeableBytes, prependableBytes, not_lt] at hroom
    have hfront : kCheapPrepend ≤ b.readIndex := by omega
    have hlast : b.readIndex + b.readableBytes = b.writeIndex := by
      simp only [readableBytes]
      omega
    have hmoved : (slice b.buffer b.readIndex b.writeIndex).length = b.readableBytes :=
      slice_length hw
    have hfit : kCheapPrepend + (slice b.buffer b.readIndex b.writeIndex).length ≤
        b.buffer.length := by
      omega
    have hend : b.readIndex + b.readableBytes ≤ b.buffer.length := by omega
    simp only [copyWithin_eq_some hfront hend, hlast, Option.bind_eq_bind, Option.bind_some,
      Option.pure_def]
    refine ⟨_, rfl, ⟨by simp, ?_, ?_⟩, ?_, ?_⟩
    · dsimp only
      rw [overwrite_length hfit, ← hmoved]
      exact hfit
    · dsimp only
      rwa [overwrite_length hfit]
    · have hback := slice_overwrite_append (i := kCheapPrepend) le_rfl hfit
      rwa [slice_self, List.nil_append, hmoved] at hback
    · simp only [writeableBytes]
      rw [overwrite_length hfit]
      omega

theorem ensureWriteableBytes_spec (h : b.WF) (len : ℕ) :
    ∃ b', b.ensureWriteableBytes len = some b' ∧ b'.WF ∧ b'.readable = b.readable ∧
      len ≤ b'.writeableBytes := by
  rw [ensureWriteableBytes]
  split
  · exact makeSpace_spec h ‹_›
  · exact ⟨b, rfl, h, rfl, by omega⟩

theorem append_spec (h : b.WF) (data : List Byte) :
    ∃ b', b.append data = some b' ∧ b'.WF ∧ b'.readable = b.readable ++ data := by
  obtain ⟨b', hb', h', hr, hspace⟩ := ensureWriteableBytes_spec h data.length
  have hw := h'.write_le_size
  have hread := h'.read_le_write
  simp only [writeableBytes] at hspace
  have hfit : b'.writeIndex + data.length ≤ b'.buffer.length := by omega
  simp only [append, hb', Option.bind_eq_bind, Option.bind_some, writeAt_eq_some hfit,
    Option.pure_def]
  refine ⟨_, rfl, ⟨by dsimp only; omega, ?_, ?_⟩, ?_⟩
  · dsimp only
    rwa [overwrite_length hfit]
  · dsimp only
    rw [overwrite_length hfit]
    exact h'.cheap_le_size
  · rw [← hr]
    exact slice_overwrite_append hread hfit

theorem append_prependable {data : List Byte} {b' : Buffer} (h : b.append data = some b')
    (hc : kCheapPrepend ≤ b.prependableBytes) : kCheapPrepend ≤ b'.prependableBytes := by
  simp only [append, Option.bind_eq_bind, Option.bind_eq_some_iff, Option.pure_def,
    Option.some.injEq] at h
  obtain ⟨b₁, hb₁, written, -, rfl⟩ := h
  change kCheapPrepend ≤ b₁.readIndex
  simp only [ensureWriteableBytes, makeSpace, Option.bind_eq_bind, Option.pure_def] at hb₁
  split_ifs at hb₁
  · exact Option.some.inj hb₁ ▸ hc
  · obtain ⟨moved, -, hb₁⟩ := Option.bind_eq_some_iff.mp hb₁
    exact Option.some.inj hb₁ ▸ le_rfl
  · exact Option.some.inj hb₁ ▸ hc

theorem prepend_spec (h : b.WF) {data : List Byte} (hlen : data.length ≤ b.prependableBytes) :
    ∃ b', b.prepend data = some b' ∧ b'.WF ∧ b'.readable = data ++ b.readable := by
  have hr := h.read_le_write
  have hw := h.write_le_size
  simp only [prependableBytes] at hlen
  have hfit : b.readIndex - data.length + data.length ≤ b.buffer.length := by omega
  simp only [prepend, show ¬ b.readIndex < data.length by omega, if_false, Option.bind_eq_bind,
    writeAt_eq_some hfit, Option.bind_some, Option.pure_def]
  refine ⟨_, rfl, ⟨by dsimp only; omega, ?_, ?_⟩, ?_⟩
  · dsimp only
    rwa [overwrite_length hfit]
  · dsimp only
    rw [overwrite_length hfit]
    exact h.cheap_le_size
  · have hread : b.readIndex - data.length + data.length ≤ b.writeIndex := by omega
    have hfront := slice_overwrite_prepend hread hw
    rwa [Nat.sub_add_cancel hlen] at hfront

theorem extrabuf_spec {bytes : List Byte} (hn : (ReadResult.read bytes).Possible b.readvLength) :
    ∃ extrabuf, writeAt (List.replicate extrabufSize 0) 0 (bytes.drop b.writeableBytes) =
        some extrabuf ∧
      slice extrabuf 0 (bytes.length - b.writeableBytes) = bytes.drop b.writeableBytes := by
  have hrest : 0 + (bytes.drop b.writeableBytes).length ≤
      (List.replicate extrabufSize (0 : Byte)).length := by
    simp only [ReadResult.Possible, readvLength] at hn
    simp only [List.length_drop, List.length_replicate]
    split at hn <;> omega
  refine ⟨_, writeAt_eq_some hrest, ?_⟩
  have hfront := slice_overwrite_append le_rfl hrest
  rwa [slice_self, List.nil_append, Nat.zero_add, List.length_drop] at hfront

/-- Whatever part of the bytes overflows into `extrabuf`, all of them are
appended. -/
theorem readFd_spec (h : b.WF) {bytes : List Byte}
    (hn : (ReadResult.read bytes).Possible b.readvLength) :
    ∃ b', b.readFd (.read bytes) = some b' ∧ b'.WF ∧ b'.readable = b.readable ++ bytes := by
  have hr := h.read_le_write
  have hw := h.write_le_size
  have hlen : (bytes.take b.writeableBytes).length = min b.writeableBytes bytes.length :=
    List.length_take
  have hfit : b.writeIndex + (bytes.take b.writeableBytes).length ≤ b.buffer.length := by
    rw [hlen, writeableBytes]
    omega
  have hsize := overwrite_length hfit
  obtain ⟨extrabuf, hextra, hrest⟩ := extrabuf_spec hn
  simp only [readFd, writeAt_eq_some hfit, hextra, Option.bind_eq_bind, Option.bind_some]
  split
  · rename_i hn
    rw [List.take_of_length_le hn] at hfit hsize ⊢
    refine ⟨_, rfl, ⟨by dsimp only; omega, ?_, ?_⟩, slice_overwrite_append hr hfit⟩
    · dsimp only
      rwa [hsize]
    · dsimp only
      rw [hsize]
      exact h.cheap_le_size
  · rename_i hn
    have hend : b.buffer.length = b.writeIndex + (bytes.take b.writeableBytes).length := by
      rw [hlen]
      simp only [writeableBytes] at hn ⊢
      omega
    let filled := overwrite b.buffer b.writeIndex (bytes.take b.writeableBytes)
    have hfilled : WF ⟨filled, b.readIndex, filled.length⟩ := by
      refine ⟨?_, le_rfl, ?_⟩
      · dsimp only [filled]
        omega
      · dsimp only [filled]
        rw [hsize]
        exact h.cheap_le_size
    obtain ⟨b', hb', h', hread⟩ := append_spec hfilled (bytes.drop b.writeableBytes)
    refine ⟨b', by rw [hrest]; exact hb', h', ?_⟩
    have hback : slice filled b.readIndex filled.length =
        b.readable ++ bytes.take b.writeableBytes := by
      rw [hsize, hend]
      exact slice_overwrite_append hr hfit
    rw [hread, readable, hback, List.append_assoc, List.take_append_drop]

theorem writeFd_wrote (h : b.WF) (n : ℕ) :
    b.writeFd (.wrote n) = some (b.readable.take n, b.retrive n) := by
  simp only [writeFd, peek_readableBytes h, Option.bind_eq_bind, Option.bind_some,
    Option.pure_def]

theorem writeFd_error (h : b.WF) (err : Errno) : b.writeFd (.error err) = some ([], b) := by
  simp only [writeFd, peek_readableBytes h, Option.bind_eq_bind, Option.bind_some,
    Option.pure_def]

end Mymuduo.Net.Buffer
