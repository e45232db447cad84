import Dotqoo.Capture.Mqtt
import Dotqoo.Capture.Tick
import Dotqoo.Lib.Streams

/-!
# What is published can be decompressed, if it fits

`compress_msg` gives `deflate` an output buffer of the size of the input, does
not look at what `deflate` returns, and publishes what was written. zlib
promises no more than `compressBound`: a short or random message may grow, and
then the buffer holds the beginning of the stream, which the client's
`zlib.decompress` rejects. `delivers_iff` says that this is all that can go
wrong between the two ends.

zlib is a parameter. Of `Platform.deflate` (the complete stream of an input)
and the client's `decompress` the theorem assumes that they are a
self-delimiting pair.
-/

namespace Dotqoo.Capture

open Dotqoo.Table Dotqoo.Lib

variable {pl : Platform} {decompress : List UInt8 → Option (List UInt8)}

/-- The message is published as its complete stream, and the client gets it back. -/
def Delivers (pl : Platform) (decompress : List UInt8 → Option (List UInt8)) (n : Nat)
    (msg : Message) (result : Option Int) (m : Mqtt) : Prop :=
  ∃ payload, (sendMqttMsg result (m.withMessage pl n msg)).log.getLast?
      = some (.publish result (.live msg) payload)
    ∧ payload = pl.deflate msg.bytes
    ∧ decompress payload = some msg.bytes

/-- `compress_msg` prepares as much of the stream as the message is long. -/
theorem payload_withMessage (m : Mqtt) (n : Nat) {msg : Message}
    (hlen : msg.bytes.length = pl.structSize * n) :
    (m.withMessage pl n msg).payload = (pl.deflate msg.bytes).take (pl.structSize * n) := by
  have hall : msg.bytes.take (pl.structSize * n) = msg.bytes :=
    List.take_of_length_le (by omega)
  simp only [Mqtt.withMessage, compressMsg, Mqtt.payload, hall, List.take_left]

/-- With the connection on, `send_MQTT_msg` publishes what was prepared. -/
theorem getLast_sendMqttMsg {m : Mqtt} (hconn : m.connection = .on) (result : Option Int) :
    (sendMqttMsg result m).log.getLast? = some (.publish result m.data m.payload) := by
  unfold sendMqttMsg
  rw [if_neg (by simp [hconn])]
  cases result with
  | none => simp [publishMessage, Mqtt.payload]
  | some tk => simp [publishMessage, Mqtt.payload]

/-- When the stream does not fit, a part of it is published, and the client
rejects it. -/
theorem truncated_rejected (hz : SelfDelimiting pl.deflate decompress) (m : Mqtt) (n : Nat)
    {msg : Message} (hlen : msg.bytes.length = pl.structSize * n)
    (hlong : pl.structSize * n < (pl.deflate msg.bytes).length) :
    decompress (m.withMessage pl n msg).payload = none := by
  rw [payload_withMessage m n hlen]
  exact hz.dec_take_of_lt hlong

/-- **A message arrives if and only if its compressed stream is no longer than
the message.** -/
theorem delivers_iff (hz : SelfDelimiting pl.deflate decompress) (n : Nat) (msg : Message)
    (result : Option Int) (m : Mqtt) (hconn : m.connection = .on)
    (hlen : msg.bytes.length = pl.structSize * n) :
    Delivers pl decompress n msg result m ↔
      (pl.deflate msg.bytes).length ≤ pl.structSize * n := by
  have hlast := getLast_sendMqttMsg (m := m.withMessage pl n msg) hconn result
  rw [payload_withMessage m n hlen] at hlast
  rw [Delivers, hlast]
  constructor
  · intro ⟨payload, hpayload, _, hdec⟩
    have hcut : (pl.deflate msg.bytes).take (pl.structSize * n) = payload := by
      injection hpayload with h
      injection h
    rw [← hcut] at hdec
    exact hz.dec_take_iff.mp hdec
  · intro hfits
    have hcut : (pl.deflate msg.bytes).take (pl.structSize * n) = pl.deflate msg.bytes :=
      List.take_of_length_le hfits
    exact ⟨pl.deflate msg.bytes, by rw [hcut]; rfl, rfl, hz.inverts msg.bytes⟩

/-! ## A zlib that is known on one message

The stream zlib makes of one message is written down below for two builds. On
all other inputs the pair marks each byte with a 0 and the end with a 1. -/

def frame : List UInt8 → List UInt8
  | [] => [1]
  | b :: bytes => 0 :: b :: frame bytes

def unframe : List UInt8 → Option (List UInt8)
  | [1] => some []
  | 0 :: b :: bytes => (unframe bytes).map (b :: ·)
  | _ => none

theorem unframe_frame : ∀ bytes : List UInt8, unframe (frame bytes) = some bytes
  | [] => rfl
  | b :: bytes => by rw [frame, unframe, unframe_frame bytes]; rfl

theorem unframe_prefix : ∀ (bytes p : List UInt8), p <+: frame bytes → p ≠ frame bytes →
    unframe p = none := by
  intro bytes
  induction bytes with
  | nil =>
    intro p hp hne
    rcases List.prefix_cons_iff.mp hp with rfl | ⟨q, rfl, hq⟩
    · rfl
    · rw [List.prefix_nil.mp hq] at hne
      exact absurd rfl hne
  | cons b bytes ih =>
    intro p hp hne
    rcases List.prefix_cons_iff.mp hp with rfl | ⟨q, rfl, hq⟩
    · rfl
    · rcases List.prefix_cons_iff.mp hq with rfl | ⟨r, rfl, hr⟩
      · rfl
      · have hrest := ih r hr (fun heq => hne (by rw [heq, frame]))
        rw [unframe, hrest]
        rfl

/-- `deflate`, known on `bytes`. -/
def deflateKnown (bytes stream input : List UInt8) : List UInt8 :=
  if input = bytes then stream else frame input

/-- `zlib.decompress`, known on `stream`. -/
def decompressKnown (bytes stream input : List UInt8) : Option (List UInt8) :=
  if input = stream then some bytes else unframe input

/-- zlib's streams start with 0x78. -/
theorem selfDelimiting_known (bytes rest : List UInt8) :
    SelfDelimiting (deflateKnown bytes (0x78 :: rest)) (decompressKnown bytes (0x78 :: rest)) := by
  -- no frame starts like that
  have hframe : ∀ input : List UInt8, ¬ [0x78] <+: frame input := by
    intro input h
    cases input with
    | nil => simp [frame] at h
    | cons b input => simp [frame] at h
  constructor
  · intro input
    unfold deflateKnown decompressKnown
    by_cases hin : input = bytes
    · rw [if_pos hin, if_pos rfl, hin]
    · have hne : frame input ≠ 0x78 :: rest := by
        intro heq
        exact hframe input (by rw [heq]; simp)
      rw [if_neg hin, if_neg hne]
      exact unframe_frame input
  · intro input p hp hne
    unfold deflateKnown at hp hne
    unfold decompressKnown
    by_cases hin : input = bytes
    · rw [if_pos hin] at hp hne
      rw [if_neg hne]
      rcases List.prefix_cons_iff.mp hp with rfl | ⟨q, rfl, -⟩
      · rfl
      · simp [unframe]
    · rw [if_neg hin] at hp hne
      have hne' : p ≠ 0x78 :: rest := by
        intro heq
        have hhead : [0x78] <+: p := by rw [heq]; simp
        exact hframe input (hhead.trans hp)
      rw [if_neg hne']
      exact unframe_prefix input p hp hne

/-- A web connection that has lasted some minutes. -/
def webNode : Node :=
  ⟨{ protocol := 6, srcPort := 51834, src := 1075777708, dstPort := 443, dst := 584628317 },
    { totalSent := 183412, totalRecv := 29024171, createTime := 1498032417,
      lastUpdateTime := 1498032615, approval := true }⟩

/-- zlib's stream of its record on LP64, after the first byte: 49 bytes for 54. -/
def webStream64 : List UInt8 :=
  [156, 91, 35, 32, 239, 176, 155, 145, 129, 161, 234, 84, 236, 142, 27, 74, 12, 64, 176, 155,
   145, 141, 161, 228, 12, 19, 136, 201, 176, 250, 254, 46, 70, 16, 173, 168, 233, 21, 9, 162,
   159, 67, 105, 0, 128, 121, 12, 20]

/-- zlib's stream of its record with four-byte `long` and `time_t`: 41 bytes for 38. -/
def webStream32 : List UInt8 :=
  [156, 91, 35, 32, 239, 80, 117, 42, 118, 199, 13, 165, 221, 140, 108, 12, 37, 103, 152, 24,
   64, 96, 245, 253, 93, 140, 32, 90, 81, 211, 43, 242, 57, 16, 3, 0, 241, 147, 11, 88]

/-- The record's bytes, as `construct_MQTT_msg` copies them. -/
def webBytes (sizeofLong sizeofTimeT : Nat) : List UInt8 :=
  recordBytes ⟨sizeofLong, sizeofTimeT, id⟩ ⟨0, 0⟩ webNode

/-- The message with that record. -/
def webMessage (sizeofLong sizeofTimeT : Nat) : Message :=
  { slots := [webNode], bytes := webBytes sizeofLong sizeofTimeT,
    cursor := (webBytes sizeofLong sizeofTimeT).length, overrun := false }

def webPlatform64 : Platform := ⟨8, 8, deflateKnown (webBytes 8 8) (0x78 :: webStream64)⟩

def webPlatform32 : Platform := ⟨4, 4, deflateKnown (webBytes 4 4) (0x78 :: webStream32)⟩

theorem delivers_iff_web :
    Delivers webPlatform64 (decompressKnown (webBytes 8 8) (0x78 :: webStream64)) 1
        (webMessage 8 8) (some 1) (initMqtt true 0) ↔
      (webPlatform64.deflate (webMessage 8 8).bytes).length ≤ webPlatform64.structSize * 1 :=
  delivers_iff (selfDelimiting_known (webBytes 8 8) webStream64) 1 (webMessage 8 8) (some 1)
    (initMqtt true 0) rfl (by decide)

/-- With four-byte `long` the stream is cut by three bytes, published, and rejected. -/
theorem delivers_fails :
    SelfDelimiting webPlatform32.deflate (decompressKnown (webBytes 4 4) (0x78 :: webStream32))
      ∧ (webMessage 4 4).bytes.length = webPlatform32.structSize * 1
      ∧ (sendMqttMsg (some 1) ((initMqtt true 0).withMessage webPlatform32 1
          (webMessage 4 4))).payload = 0x78 :: webStream32.take 37
      ∧ decompressKnown (webBytes 4 4) (0x78 :: webStream32) (0x78 :: webStream32.take 37) = none
      ∧ ¬ Delivers webPlatform32 (decompressKnown (webBytes 4 4) (0x78 :: webStream32)) 1
          (webMessage 4 4) (some 1) (initMqtt true 0) := by
  have hz := selfDelimiting_known (webBytes 4 4) webStream32
  refine ⟨hz, by decide, by decide, by decide, ?_⟩
  intro ⟨payload, hpublished, _, hdec⟩
  have hlast := getLast_sendMqttMsg (m := (initMqtt true 0).withMessage webPlatform32 1
    (webMessage 4 4)) rfl (some 1)
  have hpayload : ((initMqtt true 0).withMessage webPlatform32 1 (webMessage 4 4)).payload
      = payload := by
    rw [hlast] at hpublished
    injection hpublished with h
    injection h
  have hlen : (webMessage 4 4).bytes.length = webPlatform32.structSize * 1 := by decide
  have hlong : webPlatform32.structSize * 1
      < (webPlatform32.deflate (webMessage 4 4).bytes).length := by decide
  rw [← hpayload, truncated_rejected hz (initMqtt true 0) 1 hlen hlong] at hdec
  cases hdec

end Dotqoo.Capture
