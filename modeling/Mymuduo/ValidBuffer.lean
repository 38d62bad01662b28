import Mymuduo.BufferSpec

namespace Mymuduo.Net

def ValidBuffer := {b : Buffer // b.WF}

instance : DecidableEq ValidBuffer := inferInstanceAs (DecidableEq {b : Buffer // b.WF})

namespace ValidBuffer

def ofSome (o : Option Buffer) (h : ∃ b, o = some b ∧ b.WF) : ValidBuffer :=
  ⟨o.get (by obtain ⟨b, rfl, -⟩ := h; rfl), by obtain ⟨b, rfl, hb⟩ := h; exact hb⟩

theorem eq_some_ofSome {o : Option Buffer} (h : ∃ b, o = some b ∧ b.WF) :
    o = some (ofSome o h).val := (Option.some_get _).symm

def new (initialSize : ℕ) : ValidBuffer := ⟨Buffer.new initialSize, Buffer.new_wf initialSize⟩

variable (b : ValidBuffer)

def readable : List Byte := b.val.readable
def readableBytes : ℕ := b.val.readableBytes
def prependableBytes : ℕ := b.val.prependableBytes

def peek (len : ℕ) : Option (List Byte) := b.val.peek len

def retrieveAll : ValidBuffer := ⟨b.val.retrieveAll, Buffer.retrieveAll_wf b.property⟩

def retrive (len : ℕ) : ValidBuffer := ⟨b.val.retrive len, Buffer.retrive_wf b.property len⟩

def append (data : List Byte) : ValidBuffer :=
  ofSome (b.val.append data) (by
    obtain ⟨b', hb', h', -⟩ := Buffer.append_spec b.property data
    exact ⟨b', hb', h'⟩)

def prepend (data : List Byte) (h : data.length ≤ b.prependableBytes) : ValidBuffer :=
  ofSome (b.val.prepend data) (by
    obtain ⟨b', hb', h', -⟩ := Buffer.prepend_spec b.property h
    exact ⟨b', hb', h'⟩)

/-- The buffer after `readv` answered; the kernel gives only possible answers. -/
def readFd : ReadResult → ValidBuffer
  | .read bytes =>
    if h : (ReadResult.read bytes).Possible b.val.readvLength then
      ofSome (b.val.readFd (.read bytes)) (by
        obtain ⟨b', hb', h', -⟩ := Buffer.readFd_spec b.property h
        exact ⟨b', hb', h'⟩)
    else b
  | .error _ => b

def writeFd : WriteResult → List Byte × ValidBuffer
  | .wrote n => (b.readable.take n, b.retrive n)
  | .error _ => ([], b)

@[simp] theorem readable_new (initialSize : ℕ) : (new initialSize).readable = [] :=
  Buffer.readable_new initialSize

theorem readableBytes_eq : b.readableBytes = b.readable.length :=
  (Buffer.readable_length b.property).symm

theorem readableBytes_eq_zero {b : ValidBuffer} : b.readableBytes = 0 ↔ b.readable = [] := by
  rw [readableBytes_eq, List.length_eq_zero_iff]

theorem peek_eq {len : ℕ} (h : len ≤ b.readableBytes) : b.peek len = some (b.readable.take len) :=
  Buffer.peek_eq b.property h

@[simp] theorem readable_retrieveAll : b.retrieveAll.readable = [] := Buffer.readable_retrieveAll

@[simp] theorem readable_retrive (len : ℕ) : (b.retrive len).readable = b.readable.drop len :=
  Buffer.readable_retrive b.property len

theorem append_val (data : List Byte) : b.val.append data = some (b.append data).val :=
  eq_some_ofSome _

@[simp] theorem readable_append (data : List Byte) :
    (b.append data).readable = b.readable ++ data := by
  obtain ⟨b', hb', -, hr⟩ := Buffer.append_spec b.property data
  have he := Option.some.inj ((append_val b data).symm.trans hb')
  rw [readable, he, hr]
  rfl

theorem append_prependable (data : List Byte) (h : Buffer.kCheapPrepend ≤ b.prependableBytes) :
    Buffer.kCheapPrepend ≤ (b.append data).prependableBytes :=
  Buffer.append_prependable (append_val b data) h

theorem prepend_val (data : List Byte) (h : data.length ≤ b.prependableBytes) :
    b.val.prepend data = some (b.prepend data h).val := eq_some_ofSome _

@[simp] theorem readable_prepend (data : List Byte) (h : data.length ≤ b.prependableBytes) :
    (b.prepend data h).readable = data ++ b.readable := by
  obtain ⟨b', hb', -, hr⟩ := Buffer.prepend_spec b.property h
  have he := Option.some.inj ((prepend_val b data h).symm.trans hb')
  rw [readable, he, hr]
  rfl

theorem writeFd_val (n : WriteResult) :
    b.val.writeFd n = some ((b.writeFd n).1, (b.writeFd n).2.val) := by
  cases n with
  | wrote n => exact Buffer.writeFd_wrote b.property n
  | error err => exact Buffer.writeFd_error b.property err

end ValidBuffer

end Mymuduo.Net
