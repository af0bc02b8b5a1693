import Mqtt.Proofs.Framing

/-!
Where the bytes of a stream go. Bytes are appended to a receive buffer and frames are taken off it, in
any order: what has come is what was delivered, then a header that waits for its body, then what is
left in the buffer. A call answers for the bytes that are not delivered yet, however much of them was
looked at before. When frames arrive is not covered.
-/
namespace Mqtt

/-- A first byte, and the remaining length in any of its forms. -/
inductive FixedHeader.Form : FixedHeader → Bytes → Prop
  | bytes {firstByte : UInt8} {number : Nat} {length : Bytes} (declared : VarInt.Form number length) :
      Form ⟨firstByte, number⟩ (firstByte :: length)

/-- A header and as many bytes as it announces are a frame. -/
theorem FixedHeader.Form.frame {header : FixedHeader} {head body : Bytes} (form : header.Form head)
    (length : body.length = header.remainingLength) : Frame.Form ⟨header, body⟩ (head ++ body) := by
  obtain ⟨declared⟩ := form
  subst length
  exact .bytes declared

theorem Frame.Form.split {frame : Frame} {encoded : Bytes} (form : frame.Form encoded) :
    ∃ head, frame.header.Form head ∧ encoded = head ++ frame.body ∧
      frame.body.length = frame.header.remainingLength := by
  obtain ⟨declared⟩ := form
  exact ⟨_, .bytes declared, rfl, rfl⟩

/-- What is wrong with a header, as soon as its bytes show it: its length does not end, or announces
more than is accepted. -/
inductive HeaderFault (limit : Nat) : WireError → Bytes → Prop
  | endless {firstByte : UInt8} {length rest : Bytes} (four : length.length = 4)
      (continued : ∀ byte ∈ length, 128 ≤ byte) :
      HeaderFault limit .invalidLength (firstByte :: length ++ rest)
  | exceeded {header : FixedHeader} {head rest : Bytes} (form : header.Form head) (limited : limit ≠ 0)
      (larger : limit < header.remainingLength) : HeaderFault limit .maxSizeExceeded (head ++ rest)

namespace Codec

variable {codec : Codec} {buffer : Bytes}

/-- The receiver accepts a body of the length that the header announces. -/
def Admits (codec : Codec) (header : FixedHeader) : Prop :=
  codec.maxFrameSize = 0 ∨ header.remainingLength ≤ codec.maxFrameSize

theorem admits_or_exceeds (codec : Codec) (header : FixedHeader) :
    codec.Admits header ∨
      (codec.maxFrameSize ≠ 0 ∧ codec.maxFrameSize < header.remainingLength) := by
  unfold Admits
  omega

theorem header_of_form (codec : Codec) {header : FixedHeader} {head : Bytes} (form : header.Form head)
    (rest : Bytes) :
    codec.header (head ++ rest) =
      if codec.maxFrameSize ≠ 0 ∧ codec.maxFrameSize < header.remainingLength then
        .error .maxSizeExceeded
      else .ok (some (header, head.length)) := by
  obtain ⟨declared⟩ := form
  have read := VarInt.reader_recognizes.complete declared rest
  simp only [List.cons_append, Codec.header, VarInt.peek, read, List.length_cons]

theorem header_of_admitted {header : FixedHeader} {head : Bytes} (admitted : codec.Admits header)
    (form : header.Form head) (rest : Bytes) :
    codec.header (head ++ rest) = .ok (some (header, head.length)) := by
  rw [codec.header_of_form form, if_neg]
  rintro ⟨limited, larger⟩
  rcases admitted with unlimited | small
  · exact limited unlimited
  · exact Nat.not_lt.mpr small larger

theorem header_of_fault {error : WireError} (fault : HeaderFault codec.maxFrameSize error buffer) :
    codec.header buffer = .error error := by
  cases fault with
  | @endless firstByte length rest four continued =>
    have tooLong : VarInt.reader.run (length ++ rest) = .error .tooLong :=
      VarInt.decode_eq_tooLong_iff.mpr ⟨length, rest, rfl, four, continued⟩
    simp only [List.cons_append, header, VarInt.peek, tooLong]
  | exceeded form limited larger => rw [codec.header_of_form form, if_pos ⟨limited, larger⟩]

/-- What the front of a buffer is found to be: a header that is accepted, or what is wrong with it. -/
theorem header_cases (codec : Codec) (buffer : Bytes) :
    codec.header buffer = .ok none ∨
      (∃ error, codec.header buffer = .error error ∧ HeaderFault codec.maxFrameSize error buffer) ∨
      ∃ header head rest, buffer = head ++ rest ∧ header.Form head ∧ codec.Admits header ∧
        codec.header buffer = .ok (some (header, head.length)) := by
  cases buffer with
  | nil => exact .inl rfl
  | cons firstByte behind =>
    cases read : VarInt.reader.run behind with
    | error fault =>
      cases fault with
      | incomplete =>
        left
        simp only [header, VarInt.peek, read]
      | tooLong =>
        obtain ⟨length, rest, rfl, four, continued⟩ := VarInt.decode_eq_tooLong_iff.mp read
        have fault : HeaderFault codec.maxFrameSize .invalidLength (firstByte :: length ++ rest) :=
          .endless four continued
        exact .inr (.inl ⟨_, header_of_fault fault, fault⟩)
    | ok pair =>
      obtain ⟨number, used⟩ := pair
      obtain ⟨length, parts, -, declared⟩ := VarInt.reader_recognizes.split read
      have form : FixedHeader.Form ⟨firstByte, number⟩ (firstByte :: length) := .bytes declared
      right
      rw [parts, ← List.cons_append]
      generalize behind.drop used = rest
      rcases codec.admits_or_exceeds ⟨firstByte, number⟩ with admitted | ⟨limited, larger⟩
      · exact .inr ⟨_, _, rest, rfl, form, admitted, header_of_admitted admitted form rest⟩
      · have fault : HeaderFault codec.maxFrameSize .maxSizeExceeded (firstByte :: length ++ rest) :=
          .exceeded form limited larger
        exact .inl ⟨_, header_of_fault fault, fault⟩

/-- The codec between two frames. -/
def between (codec : Codec) : Codec := { codec with pending := none }

end Codec

/-- A receive buffer with the codec that takes frames off it. -/
structure Intake where
  codec : Codec
  buffer : Bytes := []

/-- What a call of the decoder comes back with. -/
abbrev Answer := Except WireError (Option Frame)

namespace Intake

/-- A call that fails changes nothing. -/
def decode (intake : Intake) : Answer × Intake :=
  match intake.codec.decode intake.buffer with
  | .error error => (.error error, intake)
  | .ok progress => (.ok progress.frame, ⟨progress.codec, progress.buffer⟩)

inductive Operation
  | append (bytes : Bytes)
  | decode

def perform (intake : Intake) : Operation → List Answer × Intake
  | .append bytes => ([], { intake with buffer := intake.buffer ++ bytes })
  | .decode => ([intake.decode.1], intake.decode.2)

/-- Operations one after the other, with the answers of all calls. -/
def run (intake : Intake) : List Operation → List Answer × Intake
  | [] => ([], intake)
  | operation :: rest =>
    let first := intake.perform operation
    let others := first.2.run rest
    (first.1 ++ others.1, others.2)

/-- The bytes that operations append, in their order. -/
def arrived : List Operation → Bytes
  | [] => []
  | .append bytes :: rest => bytes ++ arrived rest
  | .decode :: rest => arrived rest

/-- The frames among some answers. -/
def delivered (answers : List Answer) : List Frame :=
  answers.filterMap fun | .ok frame => frame | .error _ => none

/-- The bytes that are not part of a delivered frame: those of a header that was taken off the buffer
before its body was there, and those of the buffer. -/
inductive Pending (intake : Intake) : Bytes → Prop
  | buffered (fresh : intake.codec.pending = none) : Pending intake intake.buffer
  | headed {header : FixedHeader} {head : Bytes} (held : intake.codec.pending = some header)
      (form : header.Form head) (admitted : intake.codec.Admits header) :
      Pending intake (head ++ intake.buffer)

/-- Neither a complete frame nor a fault of a header is in front. -/
structure Unfinished (limit : Nat) (bytes : Bytes) : Prop where
  frame : ∀ (frame : Frame) encoded rest, bytes = encoded ++ rest → ¬ frame.Form encoded
  fault : ∀ error, ¬ HeaderFault limit error bytes

/-- What a call has to answer for the bytes that are pending, and the bytes that are pending then. -/
inductive Answers (limit : Nat) (bytes : Bytes) : Answer → Bytes → Prop
  | failed {error : WireError} (fault : HeaderFault limit error bytes) :
      Answers limit bytes (.error error) bytes
  | waiting (unfinished : Unfinished limit bytes) : Answers limit bytes (.ok none) bytes
  | framed {frame : Frame} {encoded rest : Bytes} (parts : bytes = encoded ++ rest)
      (form : frame.Form encoded) (accepted : limit = 0 ∨ frame.body.length ≤ limit) :
      Answers limit bytes (.ok (some frame)) rest

variable {intake : Intake} {bytes : Bytes}

/-- A header that is held stands for its bytes: the codec answers as if it had not looked at them. -/
theorem Pending.decode_eq (pending : intake.Pending bytes) :
    intake.codec.decode intake.buffer = intake.codec.between.decode bytes := by
  cases pending with
  | buffered fresh =>
    have same : intake.codec.between = intake.codec := by
      rw [Codec.between, ← fresh]
    rw [same]
  | headed held form admitted =>
    have between : intake.codec.between.Admits _ := admitted
    have complete := Codec.header_of_admitted between form intake.buffer
    rw [Codec.decode_pending held, Codec.decode_header rfl complete, List.drop_left]
    rfl

/-- Where a complete frame is in front, its header is found or refused. -/
private theorem header_of_frame (codec : Codec) {frame : Frame} {encoded : Bytes}
    (form : frame.Form encoded) (rest : Bytes) :
    codec.header (encoded ++ rest) = .error .maxSizeExceeded ∨
      ∃ width, codec.header (encoded ++ rest) = .ok (some (frame.header, width)) ∧
        width + frame.header.remainingLength ≤ (encoded ++ rest).length := by
  obtain ⟨head, headed, rfl, length⟩ := form.split
  have found := codec.header_of_form headed (frame.body ++ rest)
  rw [← List.append_assoc] at found
  split at found
  · exact .inl found
  · refine .inr ⟨head.length, found, ?_⟩
    simp only [List.length_append, length]
    omega

private theorem unfinished_of_incomplete {codec : Codec} (incomplete : codec.header bytes = .ok none) :
    Unfinished codec.maxFrameSize bytes where
  frame := by
    rintro frame encoded rest rfl form
    rcases header_of_frame codec form rest with refused | ⟨width, found, -⟩
    · cases incomplete.symm.trans refused
    · cases incomplete.symm.trans found
  fault := by
    intro error fault
    cases incomplete.symm.trans (Codec.header_of_fault fault)

private theorem unfinished_of_short {codec : Codec} {header : FixedHeader} {head rest : Bytes}
    (found : codec.header (head ++ rest) = .ok (some (header, head.length)))
    (short : rest.length < header.remainingLength) :
    Unfinished codec.maxFrameSize (head ++ rest) where
  frame := by
    intro frame encoded behind parts form
    rcases header_of_frame codec form behind with refused | ⟨width, same, enough⟩
    · rw [← parts] at refused
      cases found.symm.trans refused
    · rw [← parts] at same enough
      cases found.symm.trans same
      rw [List.length_append] at enough
      omega
  fault := by
    intro error fault
    cases found.symm.trans (Codec.header_of_fault fault)

/-- A call answers for the bytes that are pending, and leaves those that are pending behind it. -/
theorem Pending.decode (pending : intake.Pending bytes) :
    ∃ rest, Answers intake.codec.maxFrameSize bytes intake.decode.1 rest ∧
      intake.decode.2.Pending rest ∧
      intake.decode.2.codec.maxFrameSize = intake.codec.maxFrameSize := by
  have same := pending.decode_eq
  have fresh : intake.codec.between.pending = none := rfl
  rcases intake.codec.between.header_cases bytes with incomplete |
      ⟨error, refused, fault⟩ | ⟨header, head, rest, rfl, form, admitted, found⟩
  · have answer : intake.codec.decode intake.buffer = .ok ⟨none, intake.codec.between, bytes⟩ := by
      rw [same]
      simp only [Codec.decode, fresh, incomplete]
    have step : intake.decode = (.ok none, ⟨intake.codec.between, bytes⟩) := by
      rw [Intake.decode, answer]
    rw [step]
    exact ⟨bytes, .waiting (unfinished_of_incomplete incomplete), .buffered rfl, rfl⟩
  · have answer : intake.codec.decode intake.buffer = .error error := by
      rw [same]
      simp only [Codec.decode, fresh, refused]
    have step : intake.decode = (.error error, intake) := by
      rw [Intake.decode, answer]
    rw [step]
    exact ⟨bytes, .failed fault, pending, rfl⟩
  · have answer : intake.codec.decode intake.buffer = .ok (intake.codec.between.body header rest) := by
      rw [same, Codec.decode_header fresh found, List.drop_left]
    have step : intake.decode = (.ok (intake.codec.between.body header rest).frame,
        ⟨(intake.codec.between.body header rest).codec,
          (intake.codec.between.body header rest).buffer⟩) := by
      rw [Intake.decode, answer]
    rw [step]
    rcases Nat.lt_or_ge rest.length header.remainingLength with short | enough
    · rw [Codec.body_of_lt short]
      exact ⟨head ++ rest, .waiting (unfinished_of_short found short),
        .headed rfl form admitted, rfl⟩
    · rw [Codec.body_of_le enough]
      have length : (rest.take header.remainingLength).length = header.remainingLength := by
        rw [List.length_take, Nat.min_eq_left enough]
      refine ⟨rest.drop header.remainingLength, .framed ?_ (form.frame length) ?_, .buffered rfl, rfl⟩
      · rw [List.append_assoc, List.take_append_drop]
      · rw [length]
        exact admitted

/-- The bytes of a stream are those of the frames that were delivered, none of them longer than the
limit, and then the pending ones. -/
structure Accounts (limit : Nat) (stream : Bytes) (frames : List Frame) (pending : Bytes) : Prop where
  parts : ∃ taken, Concatenation Frame.Form frames taken ∧ stream = taken ++ pending
  accepted : ∀ frame ∈ frames, limit = 0 ∨ frame.body.length ≤ limit

theorem accounts_nil (limit : Nat) (bytes : Bytes) : Accounts limit bytes [] bytes :=
  ⟨⟨[], .nil, rfl⟩, nofun⟩

theorem Accounts.cons {limit : Nat} {frame : Frame} {encoded stream rest : Bytes}
    {frames : List Frame} (form : frame.Form encoded)
    (accepted : limit = 0 ∨ frame.body.length ≤ limit) (accounts : Accounts limit stream frames rest) :
    Accounts limit (encoded ++ stream) (frame :: frames) rest := by
  obtain ⟨⟨taken, listed, rfl⟩, others⟩ := accounts
  exact ⟨⟨encoded ++ taken, .cons form listed, (List.append_assoc ..).symm⟩,
    List.forall_mem_cons.mpr ⟨accepted, others⟩⟩

theorem Pending.append (pending : intake.Pending bytes) (more : Bytes) :
    Pending { intake with buffer := intake.buffer ++ more } (bytes ++ more) := by
  cases pending with
  | buffered fresh => exact .buffered fresh
  | headed held form admitted =>
    rw [List.append_assoc]
    exact .headed held form admitted

/-- Nothing is lost and nothing is made up, from any bytes that are pending at the start. -/
theorem Pending.run (pending : intake.Pending bytes) (operations : List Operation) :
    ∃ rest, Accounts intake.codec.maxFrameSize (bytes ++ arrived operations)
        (delivered (intake.run operations).1) rest ∧
      (intake.run operations).2.Pending rest ∧
      (intake.run operations).2.codec.maxFrameSize = intake.codec.maxFrameSize := by
  induction operations generalizing intake bytes with
  | nil =>
    rw [arrived, List.append_nil]
    exact ⟨bytes, accounts_nil _ bytes, pending, rfl⟩
  | cons operation operations ih =>
    cases operation with
    | append more =>
      rw [arrived, ← List.append_assoc]
      exact ih (pending.append more)
    | decode =>
      obtain ⟨rest, answers, behind, limit⟩ := pending.decode
      obtain ⟨last, accounts, final, same⟩ := ih behind
      rw [limit] at accounts same
      refine ⟨last, ?_, final, same⟩
      simp only [run, perform, arrived]
      generalize intake.decode.1 = answer at answers ⊢
      cases answers with
      | failed => exact accounts
      | waiting => exact accounts
      | framed parts form accepted =>
        rw [parts, List.append_assoc]
        exact accounts.cons form accepted

/-- A fault stays: whatever is appended, every later call fails with it and changes nothing. -/
theorem run_of_error {error : WireError}
    (failed : intake.codec.decode intake.buffer = .error error) (operations : List Operation) :
    (intake.run operations).2 = ⟨intake.codec, intake.buffer ++ arrived operations⟩ ∧
      ∀ answer ∈ (intake.run operations).1, answer = .error error := by
  induction operations generalizing intake with
  | nil =>
    rw [arrived, List.append_nil]
    exact ⟨rfl, nofun⟩
  | cons operation operations ih =>
    cases operation with
    | append more =>
      rw [arrived, ← List.append_assoc]
      exact ih (Codec.decode_append_error failed more)
    | decode =>
      have step : intake.decode = (.error error, intake) := by
        rw [decode, failed]
      obtain ⟨final, later⟩ := ih failed
      simp only [run, perform, step, arrived]
      exact ⟨final, List.forall_mem_cons.mpr ⟨rfl, later⟩⟩

theorem decode_eq_error {error : WireError} (failed : intake.decode.1 = .error error) :
    intake.codec.decode intake.buffer = .error error := by
  unfold decode at failed
  split at failed
  · rename_i found
    cases failed
    exact found
  · cases failed

/-- At any time in the history of a receive buffer: where all bytes have gone that came so far, when
the next call finds nothing yet, and what is left of the history after it fails. -/
theorem run_conserves (limit longest : Nat) (operations : List Operation) :
    let start : Intake := ⟨{ maxFrameSize := limit, maxPacketSize := longest }, []⟩
    let answers := (start.run operations).1
    let reached := (start.run operations).2
    ∃ pending, Accounts limit (arrived operations) (delivered answers) pending ∧
      reached.Pending pending ∧
      (reached.decode.1 = .ok none ↔ Unfinished limit pending) ∧
      ∀ error, reached.decode.1 = .error error →
        reached.decode.2 = reached ∧
        ∀ later, (reached.run later).2 = ⟨reached.codec, reached.buffer ++ arrived later⟩ ∧
          ∀ answer ∈ (reached.run later).1, answer = .error error := by
  intro start answers reached
  have fresh : start.Pending [] := .buffered rfl
  obtain ⟨pending, accounts, held, same⟩ := fresh.run operations
  refine ⟨pending, accounts, held, ?_, ?_⟩
  · obtain ⟨rest, answered, -, -⟩ := Pending.decode held
    rw [same] at answered
    constructor
    · intro nothing
      rw [nothing] at answered
      cases answered with
      | waiting unfinished => exact unfinished
    · intro unfinished
      cases found : reached.decode.1 with
      | error error =>
        rw [found] at answered
        cases answered with
        | failed fault => exact absurd fault (unfinished.fault error)
      | ok frame =>
        rw [found] at answered
        cases answered with
        | waiting => rfl
        | framed parts form => exact absurd form (unfinished.frame _ _ _ parts)
  · intro error failed
    have found := decode_eq_error failed
    refine ⟨?_, run_of_error found⟩
    rw [decode, found]

end Intake
end Mqtt
