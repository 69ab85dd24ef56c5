import Djbod.Data.Buffer
import Djbod.Node.Messages

/-!
# Messages in frames

A message travels as a frame: twelve bytes of header, and a payload that is a control structure in CBOR or a block of a
stream with its number and checksum. What encodes the control structures is a parameter.

* `FrameHeader`, `Frame`, `Message` with their `encode` and `decode`;
* `Frame.decode_prefix` : what a reader is asked for who has a part of a frame;
* `Frame.encode_decode` : the bytes of a frame that was read are those it was read from;
* `frames_survive` : messages are read back from any concatenation of them.
-/

namespace Djbod

open Buffer

/-! ## Frames -/

inductive MessageType where
  | hello
  | request
  | response
  | data
  | endOfStream
  deriving DecidableEq, Repr

namespace MessageType

def toU16 : MessageType → ℕ
  | hello => 1
  | request => 2
  | response => 3
  | data => 4
  | endOfStream => 5

def fromU16 : ℕ → Option MessageType
  | 1 => some hello
  | 2 => some request
  | 3 => some response
  | 4 => some data
  | 5 => some endOfStream
  | _ => none

theorem fromU16_toU16 (t : MessageType) : fromU16 t.toU16 = some t := by
  cases t <;> rfl

theorem toU16_lt (t : MessageType) : t.toU16 < 256 ^ 2 := by
  cases t <;> decide

theorem toU16_of_fromU16 {raw : ℕ} {t : MessageType} (h : fromU16 raw = some t) : t.toU16 = raw := by
  unfold fromU16 at h
  split at h <;> cases h <;> rfl

end MessageType

structure FrameHeader where
  messageType : MessageType
  flags : UInt16
  requestId : UInt32
  payloadLen : UInt32
  deriving DecidableEq, Repr

structure Frame where
  header : FrameHeader
  payload : Bytes
  deriving DecidableEq, Repr

inductive FrameError where
  /-- Not enough bytes yet: how many there are, and how many the frame requires in all. -/
  | incomplete (present needed : ℕ)
  | unknownMessageType (raw : ℕ)
  | payloadTooLarge (length : ℕ)
  | unknownFlags (flags : ℕ)
  deriving DecidableEq, Repr

def frameHeaderLen : ℕ := 12

namespace FrameHeader

def encode (header : FrameHeader) : Bytes :=
  toLe 2 header.messageType.toU16 ++ (toLe 2 header.flags.toNat ++
    (toLe 4 header.requestId.toNat ++ toLe 4 header.payloadLen.toNat))

/-- Parse a header. Unknown types, flags and oversized lengths are refused before any payload is read. -/
def decode (bytes : Bytes) : Except FrameError FrameHeader :=
  if bytes.length < frameHeaderLen then .error (.incomplete bytes.length frameHeaderLen)
  else
    let rawType := ofLe (readAt bytes 0 2)
    match MessageType.fromU16 rawType with
    | none => .error (.unknownMessageType rawType)
    | some messageType =>
      let flags := ofLe (readAt bytes 2 2)
      if flags ≠ 0 then .error (.unknownFlags flags)
      else
        let requestId := ofLe (readAt bytes 4 4)
        let payloadLen := ofLe (readAt bytes 8 4)
        if payloadLen > maxPayloadLen then .error (.payloadTooLarge payloadLen)
        else .ok ⟨messageType, UInt16.ofNat flags, UInt32.ofNat requestId, UInt32.ofNat payloadLen⟩

theorem encode_length (header : FrameHeader) : header.encode.length = frameHeaderLen := by
  simp [encode, frameHeaderLen]

theorem decode_encode {header : FrameHeader} (hflags : header.flags = 0)
    (hlen : header.payloadLen.toNat ≤ maxPayloadLen) (rest : Bytes) : decode (header.encode ++ rest) = .ok header := by
  have hid : header.requestId.toNat < 256 ^ 4 := header.requestId.toNat_lt
  have hlength : header.payloadLen.toNat < 256 ^ 4 := header.payloadLen.toNat_lt
  have hlong : ¬(header.encode ++ rest).length < frameHeaderLen := by
    rw [List.length_append, encode_length]
    omega
  have htype : readAt (header.encode ++ rest) 0 2 = toLe 2 header.messageType.toU16 := by simp [encode, readAt]
  have hzero : readAt (header.encode ++ rest) 2 2 = toLe 2 header.flags.toNat := by simp [encode, readAt]
  have hrequest : readAt (header.encode ++ rest) 4 4 = toLe 4 header.requestId.toNat := by
    simp [encode, readAt, List.drop_append, List.drop_eq_nil_of_le]
  have hpayload : readAt (header.encode ++ rest) 8 4 = toLe 4 header.payloadLen.toNat := by
    simp [encode, readAt, List.drop_append, List.drop_eq_nil_of_le]
  unfold decode
  rw [if_neg hlong]
  dsimp only
  rw [htype, hzero, hrequest, hpayload, ofLe_toLe header.messageType.toU16_lt, MessageType.fromU16_toU16, ofLe_toLe hid,
    ofLe_toLe hlength, hflags]
  have hno : ofLe (toLe 2 (0 : UInt16).toNat) = 0 := rfl
  dsimp only
  rw [hno, if_neg (not_not.mpr rfl), if_neg (Nat.not_lt.mpr hlen), UInt32.ofNat_toNat, UInt32.ofNat_toNat]
  rw [show UInt16.ofNat 0 = header.flags from hflags.symm]

theorem decode_eq_ok {bytes : Bytes} {header : FrameHeader} (h : decode bytes = .ok header) :
    frameHeaderLen ≤ bytes.length ∧ header.flags = 0 ∧ header.payloadLen.toNat ≤ maxPayloadLen ∧
      header.encode = bytes.take frameHeaderLen := by
  unfold decode at h
  by_cases hshort : bytes.length < frameHeaderLen
  · rw [if_pos hshort] at h
    cases h
  rw [if_neg hshort] at h
  dsimp only at h
  cases htype : MessageType.fromU16 (ofLe (readAt bytes 0 2)) with
  | none =>
    rw [htype] at h
    cases h
  | some t =>
    rw [htype] at h
    dsimp only at h
    split_ifs at h with hflags hlen
    cases h
    simp only [frameHeaderLen] at hshort
    have hlengths : ∀ off n, off + n ≤ 12 → (readAt bytes off n).length = n := fun off n hle => readAt_length (by omega)
    have hid := ofLe_lt (readAt bytes 4 4)
    have hpayload := ofLe_lt (readAt bytes 8 4)
    rw [hlengths 4 4 (by decide)] at hid
    rw [hlengths 8 4 (by decide)] at hpayload
    have hidNat : (UInt32.ofNat (ofLe (readAt bytes 4 4))).toNat = ofLe (readAt bytes 4 4) :=
      UInt32.toNat_ofNat_of_lt' hid
    have hlenNat : (UInt32.ofNat (ofLe (readAt bytes 8 4))).toNat = ofLe (readAt bytes 8 4) :=
      UInt32.toNat_ofNat_of_lt' hpayload
    have hback : ∀ off n, off + n ≤ 12 → toLe n (ofLe (readAt bytes off n)) = readAt bytes off n := by
      intro off n hle
      have hb := toLe_ofLe (readAt bytes off n)
      rwa [hlengths off n hle] at hb
    refine ⟨Nat.le_of_not_lt hshort, ?_, ?_, ?_⟩
    · rw [not_not.mp hflags]
      rfl
    · rw [hlenNat]
      exact Nat.le_of_not_lt hlen
    · have hzero : toLe 2 (UInt16.ofNat (ofLe (readAt bytes 2 2))).toNat = readAt bytes 2 2 := by
        rw [not_not.mp hflags, ← hback 2 2 (by decide), not_not.mp hflags]
        rfl
      rw [encode, MessageType.toU16_of_fromU16 htype, hidNat, hlenNat, hzero, hback 0 2 (by decide),
        hback 4 4 (by decide), hback 8 4 (by decide), readAt_append_readAt bytes 4, readAt_append_readAt bytes 2,
        readAt_append_readAt bytes 0]
      rfl

end FrameHeader

namespace Frame

def new (messageType : MessageType) (requestId : UInt32) (payload : Bytes) : Frame :=
  ⟨⟨messageType, 0, requestId, UInt32.ofNat payload.length⟩, payload⟩

def encode (frame : Frame) : Bytes := frame.header.encode ++ frame.payload

def decode (bytes : Bytes) : Except FrameError (Frame × ℕ) :=
  match FrameHeader.decode bytes with
  | .error e => .error e
  | .ok header =>
    let total := frameHeaderLen + header.payloadLen.toNat
    if bytes.length < total then .error (.incomplete bytes.length total)
    else .ok (⟨header, readAt bytes frameHeaderLen (total - frameHeaderLen)⟩, total)

theorem encode_length (frame : Frame) : frame.encode.length = frameHeaderLen + frame.payload.length := by
  rw [encode, List.length_append, FrameHeader.encode_length]

section New

variable {t : MessageType} {id : UInt32} {payload : Bytes} (hfits : payload.length ≤ maxPayloadLen)
include hfits

theorem payloadLen_new : (new t id payload).header.payloadLen.toNat = payload.length :=
  UInt32.toNat_ofNat_of_lt' (lt_of_le_of_lt hfits (by decide))

theorem headerDecode_new (rest : Bytes) : FrameHeader.decode ((new t id payload).header.encode ++ rest) =
    .ok (new t id payload).header :=
  FrameHeader.decode_encode rfl (by rw [payloadLen_new hfits]; exact hfits) rest

theorem decode_encode (rest : Bytes) : decode ((new t id payload).encode ++ rest) =
    .ok (new t id payload, (new t id payload).encode.length) := by
  have hlength := (new t id payload).encode_length
  unfold decode
  rw [encode, List.append_assoc, headerDecode_new hfits]
  dsimp only
  rw [payloadLen_new hfits, if_neg (by simp [FrameHeader.encode_length, new]), ← encode, hlength]
  have hread : readAt ((new t id payload).header.encode ++ (payload ++ rest)) frameHeaderLen
    (frameHeaderLen + payload.length - frameHeaderLen) =
      payload := by
    rw [Nat.add_sub_cancel_left]
    have hskip := @readAt_append_right _ (payload ++ rest) 0 payload.length (new t id payload).header.encode
    rw [FrameHeader.encode_length, Nat.add_zero] at hskip
    rw [hskip, readAt_append_left (by omega), readAt_self]
  rw [show (new t id payload).payload = payload from rfl, hread]
  rfl

/-- A reader who has a strict part of a frame is asked for more than it has, and for no more than the frame. -/
theorem decode_prefix {part : Bytes} (hpart : part <+: (new t id payload).encode)
    (hne : part ≠ (new t id payload).encode) :
    ∃ needed, decode part = .error (.incomplete part.length needed) ∧ part.length < needed ∧
    needed ≤ (new t id payload).encode.length := by
  have hshort : part.length < (new t id payload).encode.length :=
    lt_of_le_of_ne hpart.length_le fun h => hne (hpart.eq_of_length h)
  have hlength : (new t id payload).encode.length = frameHeaderLen + payload.length := encode_length _
  by_cases hheader : part.length < frameHeaderLen
  · refine ⟨frameHeaderLen, ?_, hheader, by omega⟩
    rw [decode, FrameHeader.decode, if_pos hheader]
  · have hsplit : part = (new t id payload).header.encode ++ part.drop frameHeaderLen := by
      have htake : part.take frameHeaderLen = (new t id payload).header.encode := by
        rw [List.prefix_iff_eq_take.mp hpart, List.take_take, Nat.min_eq_left (by omega), encode,
          List.take_append_of_le_length (by rw [FrameHeader.encode_length]), List.take_of_length_le
          (by rw [FrameHeader.encode_length])]
      rw [← htake, List.take_append_drop]
    have hdecode : FrameHeader.decode part = .ok (new t id payload).header := by
      rw [hsplit]
      exact headerDecode_new hfits _
    refine ⟨frameHeaderLen + payload.length, ?_, by omega, by omega⟩
    rw [decode, hdecode]
    dsimp only
    rw [payloadLen_new hfits, if_pos (by omega)]

end New

theorem encode_decode {bytes : Bytes} {frame : Frame} {n : ℕ} (h : decode bytes = .ok (frame, n)) :
    n ≤ bytes.length ∧ frame.encode = bytes.take n := by
  unfold decode at h
  cases hheader : FrameHeader.decode bytes with
  | error e =>
    rw [hheader] at h
    cases h
  | ok header =>
    rw [hheader] at h
    dsimp only at h
    split_ifs at h with hshort
    cases h
    obtain ⟨-, -, -, hencode⟩ := FrameHeader.decode_eq_ok hheader
    refine ⟨Nat.le_of_not_lt hshort, ?_⟩
    rw [encode, hencode, Nat.add_sub_cancel_left]
    exact readAt_append_readAt bytes 0 frameHeaderLen header.payloadLen.toNat

end Frame

/-! ## Messages -/

inductive CodecError where
  | encode (reason : String)
  | decode (reason : String)
  deriving DecidableEq, Repr

inductive MessageError where
  | frame (e : FrameError)
  | codec (e : CodecError)
  | dataFrameTooShort (length : ℕ)
  deriving DecidableEq, Repr

/-- How the CBOR library writes and reads the values of a type. -/
structure Codec (α : Type) where
  encode : α → Except String Bytes
  decode : Bytes → Except String α

/-- The library reads what it wrote. -/
def Codec.Lawful {α : Type} (codec : Codec α) : Prop :=
  ∀ a bytes, codec.encode a = .ok bytes → codec.decode bytes = .ok a

def encodeCbor {α : Type} (codec : Codec α) (a : α) : Except MessageError Bytes :=
  (codec.encode a).mapError fun reason => .codec (.encode reason)

def decodeCbor {α : Type} (codec : Codec α) (bytes : Bytes) : Except MessageError α :=
  (codec.decode bytes).mapError fun reason => .codec (.decode reason)

theorem decodeCbor_encodeCbor {α : Type} {codec : Codec α} (hlaw : codec.Lawful) {a : α} {bytes : Bytes}
    (h : encodeCbor codec a = .ok bytes) : decodeCbor codec bytes = .ok a := by
  unfold encodeCbor at h
  cases hencode : codec.encode a with
  | error reason =>
    rw [hencode] at h
    cases h
  | ok bytes' =>
    rw [hencode] at h
    cases h
    rw [decodeCbor, hlaw a bytes hencode]
    rfl

def dataPrefixLen : ℕ := 16

namespace DataFrame

def encodePayload (data : DataFrame) : Bytes := toLe 8 data.sequence ++ (toLe 8 data.checksum.toNat ++ data.bytes)

def decodePayload (payload : Bytes) : Except MessageError DataFrame :=
  if payload.length < dataPrefixLen then .error (.dataFrameTooShort payload.length)
  else .ok ⟨ofLe (readAt payload 0 8), UInt64.ofNat (ofLe (readAt payload 8 8)), payload.drop dataPrefixLen⟩

theorem encodePayload_length (data : DataFrame) : data.encodePayload.length = dataPrefixLen + data.bytes.length := by
  simp only [encodePayload, List.length_append, toLe_length, dataPrefixLen]
  omega

theorem decodePayload_encodePayload {data : DataFrame} (hsequence : data.sequence < 2 ^ 64) :
    decodePayload data.encodePayload = .ok data := by
  have hfirst : readAt data.encodePayload 0 8 = toLe 8 data.sequence := by simp [encodePayload, readAt]
  have hsecond : readAt data.encodePayload 8 8 = toLe 8 data.checksum.toNat := by simp [encodePayload, readAt]
  have hrest : data.encodePayload.drop dataPrefixLen = data.bytes := by
    simp [encodePayload, dataPrefixLen, List.drop_append, List.drop_eq_nil_of_le]
  have hchecksum : data.checksum.toNat < 256 ^ 8 := data.checksum.toNat_lt
  rw [decodePayload, if_neg (by rw [encodePayload_length]; omega), hfirst, hsecond, hrest, ofLe_toLe hsequence,
    ofLe_toLe hchecksum, UInt64.ofNat_toNat]

end DataFrame

/-- How the control structures of the protocol are encoded. -/
structure WireCodecs (Hello Request Response StreamEnd : Type) where
  hello : Codec Hello
  request : Codec Request
  response : Codec Response
  streamEnd : Codec StreamEnd

structure WireCodecs.Lawful {H R S E : Type} (wire : WireCodecs H R S E) : Prop where
  hello : wire.hello.Lawful
  request : wire.request.Lawful
  response : wire.response.Lawful
  streamEnd : wire.streamEnd.Lawful

inductive Message (Hello Request Response StreamEnd : Type) where
  | hello (hello : Hello)
  | request (id : UInt32) (request : Request)
  | response (id : UInt32) (response : Response)
  | data (id : UInt32) (data : DataFrame)
  | endOfStream (id : UInt32) (streamEnd : StreamEnd)

namespace Message

variable {H R S E : Type} (wire : WireCodecs H R S E)

def toFrame : Message H R S E → Except MessageError Frame
  | .hello value => (encodeCbor wire.hello value).map (Frame.new .hello 0)
  | .request id value => (encodeCbor wire.request value).map (Frame.new .request id)
  | .response id value => (encodeCbor wire.response value).map (Frame.new .response id)
  | .data id frame => .ok (Frame.new .data id frame.encodePayload)
  | .endOfStream id value => (encodeCbor wire.streamEnd value).map (Frame.new .endOfStream id)

def fromFrame (frame : Frame) : Except MessageError (Message H R S E) :=
  let id := frame.header.requestId
  match frame.header.messageType with
  | .hello => (decodeCbor wire.hello frame.payload).map .hello
  | .request => (decodeCbor wire.request frame.payload).map (.request id)
  | .response => (decodeCbor wire.response frame.payload).map (.response id)
  | .data => (DataFrame.decodePayload frame.payload).map (.data id)
  | .endOfStream => (decodeCbor wire.streamEnd frame.payload).map (.endOfStream id)

def encode (message : Message H R S E) : Except MessageError Bytes := (message.toFrame wire).map Frame.encode

def decode (bytes : Bytes) : Except MessageError (Message H R S E × ℕ) :=
  match Frame.decode bytes with
  | .error e => .error (.frame e)
  | .ok (frame, consumed) => (fromFrame wire frame).map fun message => (message, consumed)

/-- Decode messages until no bytes are left, at most `fuel` of them. -/
def decodeAll : ℕ → Bytes → Except MessageError (List (Message H R S E × ℕ))
  | _, [] => .ok []
  | 0, bytes => .error (.frame (.incomplete bytes.length (bytes.length + 1)))
  | fuel + 1, bytes =>
    match decode wire bytes with
    | .error e => .error e
    | .ok (message, consumed) => (decodeAll fuel (bytes.drop consumed)).map fun rest => (message, consumed) :: rest

/-- The message has these wire bytes, with a payload that a peer accepts; a block's number has 64 bits. -/
structure Travels (message : Message H R S E) (bytes : Bytes) : Prop where
  frame : ∃ frame, message.toFrame wire = .ok frame ∧ frame.encode = bytes ∧ frame.payload.length ≤ maxPayloadLen
  sequence : ∀ id data, message = .data id data → data.sequence < 2 ^ 64

variable {wire} {message : Message H R S E} {bytes : Bytes}

theorem fromFrame_control {α : Type} {codec : Codec α} (hlaw : codec.Lawful) {t : MessageType} {id : UInt32}
    {make : α → Message H R S E} (hfrom : ∀ payload, fromFrame wire (Frame.new t id payload) =
    (decodeCbor codec payload).map make) {value : α} {frame : Frame}
    (h : (encodeCbor codec value).map (Frame.new t id) = .ok frame) :
    (∃ t id, frame = Frame.new t id frame.payload) ∧ fromFrame wire frame = .ok (make value) := by
  cases hencode : encodeCbor codec value with
  | error e =>
    rw [hencode] at h
    cases h
  | ok payload =>
    rw [hencode] at h
    cases h
    refine ⟨⟨t, id, rfl⟩, ?_⟩
    rw [hfrom, decodeCbor_encodeCbor hlaw hencode]
    rfl

theorem fromFrame_toFrame (hwire : wire.Lawful) (hsequence : ∀ id data, message = .data id data →
    data.sequence < 2 ^ 64) {frame : Frame} (h : message.toFrame wire = .ok frame) :
    (∃ t id, frame = Frame.new t id frame.payload) ∧ fromFrame wire frame = .ok message := by
  cases message with
  | hello value => exact fromFrame_control hwire.hello (fun _ => rfl) h
  | request id value => exact fromFrame_control hwire.request (fun _ => rfl) h
  | response id value => exact fromFrame_control hwire.response (fun _ => rfl) h
  | endOfStream id value => exact fromFrame_control hwire.streamEnd (fun _ => rfl) h
  | data id frame =>
    cases h
    refine ⟨⟨_, _, rfl⟩, ?_⟩
    have hback := DataFrame.decodePayload_encodePayload (hsequence id frame rfl)
    rw [fromFrame, Frame.new]
    dsimp only
    rw [hback]
    rfl

theorem Travels.decode (hwire : wire.Lawful) (h : message.Travels wire bytes) (rest : Bytes) :
    Message.decode wire (bytes ++ rest) = .ok (message, bytes.length) := by
  obtain ⟨frame, hframe, rfl, hfits⟩ := h.frame
  obtain ⟨⟨t, id, hnew⟩, hback⟩ := fromFrame_toFrame hwire h.sequence hframe
  have hdecode := @Frame.decode_encode t id frame.payload hfits rest
  rw [← hnew] at hdecode
  rw [Message.decode, hdecode]
  dsimp only
  rw [hback]
  rfl

theorem Travels.decode_prefix (hwire : wire.Lawful) (h : message.Travels wire bytes) {part : Bytes}
    (hpart : part <+: bytes) (hne : part ≠ bytes) :
    ∃ needed, Message.decode wire part = .error (.frame (.incomplete part.length needed)) ∧ part.length < needed ∧
    needed ≤ bytes.length := by
  obtain ⟨frame, hframe, rfl, hfits⟩ := h.frame
  obtain ⟨⟨t, id, hnew⟩, -⟩ := fromFrame_toFrame hwire h.sequence hframe
  rw [hnew] at hpart hne ⊢
  obtain ⟨needed, hdecode, hlt, hle⟩ := Frame.decode_prefix hfits hpart hne
  refine ⟨needed, ?_, hlt, hle⟩
  rw [Message.decode, hdecode]

theorem Travels.ne_nil (h : message.Travels wire bytes) : bytes ≠ [] := by
  obtain ⟨frame, -, rfl, -⟩ := h.frame
  intro hnil
  have hlength := frame.encode_length
  rw [hnil, frameHeaderLen] at hlength
  simp at hlength
  omega

/-- Messages one behind the other are read back one by one. -/
theorem decodeAll_travels (hwire : wire.Lawful) {messages : List (Message H R S E)} {parts : List Bytes}
    (h : List.Forall₂ (Travels wire) messages parts) {fuel : ℕ} (hfuel : messages.length ≤ fuel) :
    decodeAll wire fuel parts.flatten = .ok (messages.zip (parts.map List.length)) := by
  induction h generalizing fuel with
  | nil => cases fuel <;> rfl
  | @cons message part messages parts hone hrest ih =>
    obtain ⟨fuel, rfl⟩ : ∃ n, fuel = n + 1 := ⟨fuel - 1, by rw [List.length_cons] at hfuel; omega⟩
    have hbytes : part ++ parts.flatten ≠ [] := fun hnil => hone.ne_nil (List.append_eq_nil_iff.mp hnil).1
    have hstep : decodeAll wire (fuel + 1) (part ++ parts.flatten) =
        match Message.decode wire (part ++ parts.flatten) with
        | .error e => .error e
        | .ok (message, consumed) => (decodeAll wire fuel ((part ++ parts.flatten).drop consumed)).map fun rest =>
            (message, consumed) :: rest := by
      cases hcons : part ++ parts.flatten with
      | nil => exact absurd hcons hbytes
      | cons b bs => rfl
    rw [List.flatten_cons, hstep, hone.decode hwire]
    dsimp only
    rw [List.drop_left, ih (by rw [List.length_cons] at hfuel; omega)]
    rfl

end Message

/-- **Frames survive any segmentation.** Messages whose payloads fit are read back from their concatenation, each with
the bytes it took; a strict part of one asks for more bytes, and for no more than there are; a block of a stream keeps
its number, checksum and bytes; and a frame that is read has the bytes it was read from. -/
theorem frames_survive {H R S E : Type} {wire : WireCodecs H R S E} (hwire : wire.Lawful) :
    (∀ (messages : List (Message H R S E)) (parts : List Bytes), List.Forall₂ (Message.Travels wire) messages parts →
      ∀ fuel ≥ messages.length,
        Message.decodeAll wire fuel parts.flatten = .ok (messages.zip (parts.map List.length))) ∧
    (∀ (message : Message H R S E) (bytes : Bytes), message.Travels wire bytes → ∀ part, part <+: bytes → part ≠ bytes →
      ∃ needed, Message.decode wire part = .error (.frame (.incomplete part.length needed)) ∧ part.length < needed ∧
        needed ≤ bytes.length) ∧
    (∀ (id : UInt32) (data : DataFrame), data.sequence < 2 ^ 64 →
      data.bytes.length + dataPrefixLen ≤ maxPayloadLen → ∀ rest,
      ∃ bytes, (Message.data id data : Message H R S E).encode wire = .ok bytes ∧
        Message.decode wire (bytes ++ rest) = .ok (.data id data, frameHeaderLen + dataPrefixLen + data.bytes.length)) ∧
    (∀ bytes frame n, Frame.decode bytes = .ok (frame, n) → n ≤ bytes.length ∧ frame.encode = bytes.take n) := by
  refine ⟨fun messages parts h fuel hfuel => Message.decodeAll_travels hwire h hfuel,
    fun message bytes h part hpart hne => h.decode_prefix hwire hpart hne, fun id data hsequence hfits rest => ?_,
    fun bytes frame n h => Frame.encode_decode h⟩
  have htravels : (Message.data id data : Message H R S E).Travels wire
      (Frame.new .data id data.encodePayload).encode := by
    refine ⟨⟨_, rfl, rfl, ?_⟩, fun id' data' heq => ?_⟩
    · show data.encodePayload.length ≤ _
      rw [DataFrame.encodePayload_length]
      omega
    · cases heq
      exact hsequence
  refine ⟨_, rfl, ?_⟩
  rw [htravels.decode hwire rest, Frame.encode_length]
  show Except.ok (_, frameHeaderLen + data.encodePayload.length) = _
  rw [DataFrame.encodePayload_length, Nat.add_assoc]

/-- The codec of a peer that sends only these values. -/
def Codec.ofTable {α : Type} [DecidableEq α] (encoding : α → Bytes) (table : List α) : Codec α where
  encode a := if a ∈ table then .ok (encoding a) else .error "not sent"
  decode bytes := (table.find? fun a => encoding a = bytes).elim (.error "not sent") .ok

theorem Codec.ofTable_lawful {α : Type} [DecidableEq α] {encoding : α → Bytes} {table : List α}
    (h : ∀ a ∈ table, ∀ b ∈ table, encoding a = encoding b → a = b) : (Codec.ofTable encoding table).Lawful := by
  intro a bytes hencode
  unfold ofTable at hencode ⊢
  dsimp only at hencode ⊢
  split_ifs at hencode with hmem
  obtain rfl := Except.ok.inj hencode
  cases hfind : table.find? fun b => encoding b = encoding a with
  | none => exact absurd (decide_eq_true rfl) (List.find?_eq_none.mp hfind a hmem)
  | some b =>
    have heq : encoding b = encoding a := by simpa using List.find?_some hfind
    rw [h b (List.mem_of_find?_eq_some hfind) a hmem heq]
    rfl

/-- An upload's messages: two requests to store an object, and the end of a body, which lists nothing. -/
def uploadWire : WireCodecs Unit PutParams Unit Unit where
  hello := .ofTable (fun _ => []) []
  request := .ofTable encodePutObject [⟨"k", 1, none, []⟩, ⟨"k", 2, some "text/plain", [("a", "b")]⟩]
  response := .ofTable (fun _ => []) []
  streamEnd := .ofTable (fun _ => Cbor.fields [("reconstructed", Cbor.array []), ("missing_records", Cbor.array [])])
    [()]

theorem uploadWire_lawful : uploadWire.Lawful where
  hello := Codec.ofTable_lawful (by decide)
  request := Codec.ofTable_lawful (by decide +kernel)
  response := Codec.ofTable_lawful (by decide)
  streamEnd := Codec.ofTable_lawful (by decide)

/-- A request to store an object of one byte under `k`, its body and the end of the body, read back from their
concatenation. -/
theorem frames_survive_upload : uploadWire.Lawful ∧
    Message.decodeAll uploadWire 3 (
      [2, 0, 0, 0, 7, 0, 0, 0, 24, 0, 0, 0,
        0xa1, 0x69, 0x50, 0x75, 0x74, 0x4f, 0x62, 0x6a, 0x65, 0x63, 0x74, 0xa2, 0x63, 0x6b, 0x65, 0x79, 0x61, 0x6b,
        0x64, 0x73, 0x69, 0x7a, 0x65, 0x01] ++
      [4, 0, 0, 0, 7, 0, 0, 0, 17, 0, 0, 0, 0, 0, 0, 0, 0, 0, 0, 0, 5, 0, 0, 0, 0, 0, 0, 0, 1] ++
      (Frame.new .endOfStream 7
        (Cbor.fields [("reconstructed", Cbor.array []), ("missing_records", Cbor.array [])])).encode) =
      .ok [(.request 7 ⟨"k", 1, none, []⟩, 36), (.data 7 ⟨0, 5, [1]⟩, 29), (.endOfStream 7 (), 45)] := by
  have hrequest : (Message.request 7 ⟨"k", 1, none, []⟩).Travels uploadWire
      [2, 0, 0, 0, 7, 0, 0, 0, 24, 0, 0, 0,
        0xa1, 0x69, 0x50, 0x75, 0x74, 0x4f, 0x62, 0x6a, 0x65, 0x63, 0x74, 0xa2, 0x63, 0x6b, 0x65, 0x79, 0x61, 0x6b,
        0x64, 0x73, 0x69, 0x7a, 0x65, 0x01] := by
    refine ⟨⟨_, rfl, by decide +kernel, by decide +kernel⟩, fun _ _ h => ?_⟩
    cases h
  have hdata : (Message.data 7 ⟨0, 5, [1]⟩).Travels uploadWire
      [4, 0, 0, 0, 7, 0, 0, 0, 17, 0, 0, 0, 0, 0, 0, 0, 0, 0, 0, 0, 5, 0, 0, 0, 0, 0, 0, 0, 1] := by
    refine ⟨⟨_, rfl, by decide, by decide⟩, fun _ _ h => ?_⟩
    cases h
    decide
  have hend : (Message.endOfStream 7 ()).Travels uploadWire
      (Frame.new .endOfStream 7 (Cbor.fields [("reconstructed", Cbor.array []),
      ("missing_records", Cbor.array [])])).encode := by
    refine ⟨⟨_, rfl, rfl, by decide +kernel⟩, fun _ _ h => ?_⟩
    cases h
  refine ⟨uploadWire_lawful, ?_⟩
  exact (frames_survive uploadWire_lawful).1 _ _ (.cons hrequest (.cons hdata (.cons hend .nil))) 3 le_rfl

end Djbod
