import ImsCall.Proofs.Codec.Delimiting

/-!
# Which fault is found first

A buffer may be wrong in many places, and a codec answers with one fault. It looks at the size
first, then at the version, then reads everything from left to right up to the end, and only then
looks up the codes of the service and of the call, in this order.

Two things about this order are worth knowing. The two codes come last although they stand in
front: writing other codes into an accepted buffer changes nothing else about it, and a buffer
that is refused for one of these codes is an accepted one but for their eight bytes. And what is
found wrong with an item is found before anything behind it is looked at, so it stays the fault
whatever follows.

## Main definitions

* `Wire.withCodes` — a buffer with other codes for the service and the call
* `Codec.AnswersCodes` — what becomes of an accepted buffer with other codes
* `Fault.isSettled` — a fault that no further bytes can change

## Main results

* `Codec.decode_fault_order` — the order of the checks
* `Codec.decode_append_of_settled` — a malformed item is the fault whatever follows
-/

namespace ImsCall

/-- Whether a fault lies in an item that is there: a bool, an option byte, a value's kind, a text, a
code of the media, or a bag that nests too deep. -/
def ReadFault.isOfItem : ReadFault → Bool
  | .badBool _ | .badOption _ | .badTag _ | .badText _ | .unknownCode .. | .tooDeep => true
  | .endOfInput | .overlongRun | .trailing => false

/-- Whether no further bytes can change a fault: it lies in the version or in an item. -/
def Fault.isSettled : Fault → Bool
  | .unsupportedVersion .. => true
  | .decoding (.malformed cause) => cause.isOfItem
  | _ => false

/-! ### Other codes in a buffer -/

namespace Wire

variable {b y : Bytes} {content : Content} {fault : ReadFault}

/-- A buffer with other codes for the service and the call, which take the eight bytes behind the
version. -/
def withCodes (b : Bytes) (service call : Int32) : Bytes :=
  b.take 2 ++ (int32 service ++ (int32 call ++ b.drop 10))

theorem withCodes_append (version : Nat) (s t s' t' : Int32) (rest : Bytes) :
    withCodes (word 2 version ++ (int32 s ++ (int32 t ++ rest))) s' t' =
      word 2 version ++ (int32 s' ++ (int32 t' ++ rest)) := by
  have two : (word 2 version).length = 2 := length_word 2 version
  rw [withCodes, drop_header two, List.take_left' two]

/-- Whether a buffer holds one profile does not depend on the two codes. -/
theorem readContent_withCodes (hs : b.length < 2 ^ 64) (h : readContent b = .ok content)
    (s t : Int32) :
    (withCodes b s t).length = b.length ∧ withCodes b content.service content.call = b ∧
      readContent (withCodes b s t) = .ok { content with service := s, call := t } := by
  obtain ⟨bag, shallow, hbag, rfl⟩ := (readContent_eq_ok_iff hs).mp h
  rw [withCodes_append, withCodes_append]
  have length : (word 2 content.version.toNat ++ (int32 s ++ (int32 t
      ++ (Record.bagBytes bag ++ content.media.bytes)))).length =
      (word 2 content.version.toNat ++ (int32 content.service ++ (int32 content.call
        ++ (Record.bagBytes bag ++ content.media.bytes)))).length := by
    simp only [List.length_append, length_word, length_int32]
  refine ⟨length, rfl, ?_⟩
  rw [← length] at hs
  exact (readContent_eq_ok_iff hs).mpr ⟨bag, shallow, hbag, rfl⟩

/-- Writing codes over codes that were written before. -/
theorem withCodes_withCodes (hb : 2 ≤ b.length) (s t s' t' : Int32) :
    withCodes (withCodes b s t) s' t' = withCodes b s' t' := by
  have two : (b.take 2).length = 2 := List.length_take_of_le hb
  have behind : (withCodes b s t).drop 10 = b.drop 10 := drop_header two s t _
  rw [withCodes, behind, withCodes, List.take_left' two, ← withCodes]

/-- The version in front of a buffer. -/
theorem version_cons_cons (low high : UInt8) (rest : Bytes) :
    Reader.version (low :: high :: rest) =
      .ok (UInt16.ofNat (low.toNat + 256 * high.toNat), rest) := by
  have number : ofWord [low, high] = low.toNat + 256 * high.toNat := by simp [ofWord]
  rw [← number]
  rfl

end Wire

namespace Codec

variable {c : Codec} {p : Profile} {b y : Bytes} {content : Wire.Content} {fault : Fault}

/-! ### What a fault tells -/

theorem read_of_readContent (h : c.readContent b = .ok content) :
    c.read b = ofContent content := by
  rw [read, h]
  rfl

/-- Reading fails over the content of a buffer, or over its codes once the content is read. -/
theorem read_eq_error_iff :
    c.read b = .error fault ↔ c.readContent b = .error fault ∨
      ∃ content, c.readContent b = .ok content ∧ ofContent content = .error fault := by
  cases h : c.readContent b with
  | error found =>
    rw [read_of_readContent_eq_error h]
    simp
  | ok content =>
    rw [read_of_readContent h]
    simp

/-- What is wrong with the content is a fault of decoding or of the version, never of a code. -/
theorem readContent_ne_unknownCode {kind : CodeKind} {code : Int32} :
    c.readContent b ≠ .error (.unknownCode kind code) := by
  intro h
  rw [readContent] at h
  split at h
  · cases h
  · split at h
    · cases h
    · split at h
      · cases hread : Wire.readContent b with
        | error cause =>
          rw [hread] at h
          cases h
        | ok content =>
          rw [hread] at h
          cases h
      · cases h

theorem ofCode_eq_error {α : Type} [Coded α] {code : Int32}
    (unknown : ∀ a : α, Coded.code a ≠ code) :
    (Coded.ofCode code : Except Fault α) = .error (.unknownCode (Coded.kind α) code) := by
  rw [Coded.ofCode, Coded.ofCode?_eq_none_iff.mpr unknown]

/-- The code of the service is looked up first. -/
theorem ofContent_of_unknownService
    (unknown : ∀ a : ServiceType, Coded.code a ≠ content.service) :
    ofContent content = .error (.unknownCode .serviceType content.service) := by
  rw [ofContent, ofCode_eq_error unknown]
  rfl

/-- The code of the call is looked up once that of the service is known. -/
theorem ofContent_of_unknownCall {service : ServiceType}
    (known : Coded.code service = content.service)
    (unknown : ∀ a : CallType, Coded.code a ≠ content.call) :
    ofContent content = .error (.unknownCode .callType content.call) := by
  rw [ofContent, ← known, Coded.ofCode_code, ofCode_eq_error unknown]
  rfl

/-- What is wrong with codes is that one of them is unknown. -/
theorem exists_unknownCode_of_ofContent (h : ofContent content = .error fault) :
    ∃ kind code, fault = .unknownCode kind code := by
  by_cases known : ∃ service : ServiceType, Coded.code service = content.service
  · obtain ⟨service, hservice⟩ := known
    by_cases alsoKnown : ∃ call : CallType, Coded.code call = content.call
    · obtain ⟨call, hcall⟩ := alsoKnown
      rw [ofContent, ← hservice, ← hcall, Coded.ofCode_code, Coded.ofCode_code] at h
      cases h
    · rw [not_exists] at alsoKnown
      rw [ofContent_of_unknownCall hservice alsoKnown] at h
      cases h
      exact ⟨_, _, rfl⟩
  · rw [not_exists] at known
    rw [ofContent_of_unknownService known] at h
    cases h
    exact ⟨_, _, rfl⟩

/-! ### Accepted buffers with other codes -/

/-- The content of a buffer with other codes is the same but for the codes. -/
theorem readContent_withCodes (h : c.readContent b = .ok content) (s t : Int32) :
    c.readContent (Wire.withCodes b s t) = .ok { content with service := s, call := t } := by
  obtain ⟨fits, supported, hread⟩ := readContent_eq_ok_iff.mp h
  have hs : b.length < 2 ^ 64 := Nat.lt_of_le_of_lt fits c.maxSize_lt
  obtain ⟨length, -, changed⟩ := Wire.readContent_withCodes hs hread s t
  refine readContent_eq_ok_iff.mpr ⟨?_, supported, changed⟩
  rwa [length]

/-- A buffer that is refused for a code is an accepted one with other codes. -/
theorem exists_accepted_of_unknownCode {kind : CodeKind} {code : Int32}
    (h : c.read b = .error (.unknownCode kind code)) :
    ∃ accepted p s t, c.read accepted = .ok p ∧ Wire.withCodes accepted s t = b := by
  rcases read_eq_error_iff.mp h with early | ⟨content, hcontent, -⟩
  · exact absurd early readContent_ne_unknownCode
  · obtain ⟨fits, -, hread⟩ := readContent_eq_ok_iff.mp hcontent
    have hs : b.length < 2 ^ 64 := Nat.lt_of_le_of_lt fits c.maxSize_lt
    obtain ⟨-, same, -⟩ := Wire.readContent_withCodes hs hread 0 0
    have enough : 2 ≤ b.length := by
      rw [← same]
      simp [Wire.withCodes]
      omega
    -- Any known codes do.
    refine ⟨Wire.withCodes b (Coded.code ServiceType.normal) (Coded.code CallType.voice),
      ⟨.normal, .voice, .none, content.extras, content.media⟩, content.service, content.call,
      ?_, ?_⟩
    · rw [read_of_readContent (readContent_withCodes hcontent _ _)]
      exact ofContent_eq_ok_iff.mpr ⟨rfl, rfl, rfl, rfl, rfl⟩
    · rw [Wire.withCodes_withCodes enough, same]

/-! ### The order of the checks -/

/-- What becomes of an accepted buffer of a profile when codes are written over those of its
service and its call. -/
structure AnswersCodes (c : Codec) (p : Profile) (b : Bytes) (s t : Int32) : Prop where
  /-- Nothing is moved. -/
  length : (Wire.withCodes b s t).length = b.length
  /-- Codes that are known are taken over, and nothing else changes. -/
  known (service : ServiceType) (call : CallType) :
    Coded.code service = s → Coded.code call = t →
      (c.decode (Wire.withCodes b s t)).value = .ok { p with service, call }
  /-- An unknown code of the service is the fault, whatever the code of the call. -/
  unknownService : (∀ service : ServiceType, Coded.code service ≠ s) →
    (c.decode (Wire.withCodes b s t)).value = .error (.unknownCode .serviceType s)
  /-- An unknown code of the call is the fault if that of the service is known. -/
  unknownCall (service : ServiceType) : Coded.code service = s →
    (∀ call : CallType, Coded.code call ≠ t) →
      (c.decode (Wire.withCodes b s t)).value = .error (.unknownCode .callType t)
  /-- Cut off anywhere, the buffer is refused before any code is looked up. -/
  cut (cut : Bytes) : cut <+: Wire.withCodes b s t → cut ≠ Wire.withCodes b s t →
    ∃ cause, (c.decode cut).value = .error (.decoding cause)
  /-- So it is with anything behind it. -/
  extended (more : Bytes) : more ≠ [] →
    ∃ cause, (c.decode (Wire.withCodes b s t ++ more)).value = .error (.decoding cause)

/-- Accepted buffers with other codes are answered by these codes alone. -/
theorem answersCodes_of_accepted (accepted : c.read b = .ok p) (s t : Int32) :
    c.AnswersCodes p b s t := by
  obtain ⟨content, hcontent, hp⟩ := except_bind_eq_ok_iff.mp accepted
  obtain ⟨-, -, -, hextras, hmedia⟩ := ofContent_eq_ok_iff.mp hp
  have cause := restrictCause_of_read accepted
  have changed := readContent_withCodes hcontent s t
  refine ⟨?length, ?known, ?unknownService, ?unknownCall, ?cut, ?extended⟩
  case length =>
    obtain ⟨fits, -, hread⟩ := readContent_eq_ok_iff.mp hcontent
    exact (Wire.readContent_withCodes (Nat.lt_of_le_of_lt fits c.maxSize_lt) hread s t).1
  case known =>
    intro service call hservice hcall
    rw [value_decode, read_of_readContent changed]
    exact ofContent_eq_ok_iff.mpr ⟨hservice.symm, hcall.symm, cause, hextras, hmedia⟩
  case unknownService =>
    intro unknown
    rw [value_decode, read_of_readContent changed]
    exact ofContent_of_unknownService unknown
  case unknownCall =>
    intro service hservice unknown
    rw [value_decode, read_of_readContent changed]
    exact ofContent_of_unknownCall hservice unknown
  case cut =>
    rintro cut ⟨y, whole⟩ shorter
    have hy : y ≠ [] := by
      rintro rfl
      exact shorter (cut.append_nil.symm.trans whole)
    rw [← whole] at changed
    obtain ⟨cause, refused, -⟩ := isShortage_of_readContent changed hy
    rw [value_decode]
    exact ⟨cause, read_of_readContent_eq_error refused⟩
  case extended =>
    intro more nonempty
    rw [value_decode]
    exact ⟨_, read_of_readContent_eq_error (readContent_append changed nonempty)⟩

/-- A buffer of another version is refused for it, whatever else is in it. -/
theorem readContent_of_version {low high : UInt8} {rest : Bytes}
    (fits : (low :: high :: rest).length ≤ c.maxSize)
    (other : UInt16.ofNat (low.toNat + 256 * high.toNat) ≠ wireVersion) :
    c.readContent (low :: high :: rest) =
      .error (.unsupportedVersion (UInt16.ofNat (low.toNat + 256 * high.toNat)) wireVersion) := by
  rw [readContent, if_neg (Nat.not_lt.mpr fits), Wire.version_cons_cons]
  exact if_neg other

/-- A buffer that is too large, or too short for a version, is not looked into. -/
theorem readContent_of_size (size : c.maxSize < b.length ∨ b.length < 2) :
    ∃ cause, c.readContent b = .error (.decoding cause) := by
  rw [readContent]
  by_cases large : c.maxSize < b.length
  · rw [if_pos large]
    exact ⟨_, rfl⟩
  · have short : b.length < 2 := size.resolve_left large
    have header : Wire.Reader.version b = .error .endOfInput := by
      rcases b with _ | ⟨low, _ | ⟨high, rest⟩⟩
      · rfl
      · rfl
      · exact absurd short (Nat.not_lt.mpr (Nat.le_add_left 2 rest.length))
    rw [if_neg large, header]
    exact ⟨_, rfl⟩

/-- **The checks have an order.** The codes of the service and of the call are looked up last, so
an accepted buffer with other codes is answered by these codes alone, and unknown codes are
reported of no other buffers. The version is checked before everything but the size, which has to
do for the version at least. -/
theorem decode_fault_order (c : Codec) :
    (∀ b p, (c.decode b).value = .ok p → ∀ s t, c.AnswersCodes p b s t) ∧
    (∀ b kind code, (c.decode b).value = .error (.unknownCode kind code) →
      ∃ accepted p s t, (c.decode accepted).value = .ok p ∧ Wire.withCodes accepted s t = b) ∧
    (∀ (low high : UInt8) (rest : Bytes), (low :: high :: rest).length ≤ c.maxSize →
      UInt16.ofNat (low.toNat + 256 * high.toNat) ≠ wireVersion →
      (c.decode (low :: high :: rest)).value = .error
        (.unsupportedVersion (UInt16.ofNat (low.toNat + 256 * high.toNat)) wireVersion)) ∧
    ∀ b, c.maxSize < b.length ∨ b.length < 2 →
      ∃ cause, (c.decode b).value = .error (.decoding cause) := by
  simp only [value_decode]
  refine ⟨?codes, ?unknown, ?version, ?size⟩
  case codes =>
    intro b p accepted s t
    exact answersCodes_of_accepted accepted s t
  case unknown =>
    intro b kind code refused
    exact exists_accepted_of_unknownCode refused
  case version =>
    intro low high rest fits other
    exact read_of_readContent_eq_error (readContent_of_version fits other)
  case size =>
    intro b size
    obtain ⟨cause, refused⟩ := readContent_of_size size
    exact ⟨cause, read_of_readContent_eq_error refused⟩

/-- The record of a careless sender with codes of which both, one or none are unknown, and such a
buffer sent twice in a row. -/
theorem decode_fault_order_careless :
    ((default : Codec).decode careless.bytes).value = .ok careless.profile ∧
      ((default : Codec).decode (Wire.withCodes careless.bytes 99 (-7))).value =
        .error (.unknownCode .serviceType 99) ∧
      ((default : Codec).decode (Wire.withCodes careless.bytes 2 (-7))).value =
        .error (.unknownCode .callType (-7)) ∧
      ((default : Codec).decode (Wire.withCodes careless.bytes 2 9)).value =
        .ok { careless.profile with service := .emergency, call := .videoShareTx } ∧
      ∃ cause, ((default : Codec).decode
        (Wire.withCodes careless.bytes 99 (-7) ++ careless.bytes)).value =
          .error (.decoding cause) := by
  have noService : ∀ a : ServiceType, Coded.code a ≠ 99 := by
    intro a
    cases a <;> decide
  have noCall : ∀ a : CallType, Coded.code a ≠ -7 := by
    intro a
    cases a <;> decide
  have answers :=
    (decode_fault_order default).1 careless.bytes careless.profile value_decode_careless
  refine ⟨value_decode_careless, (answers 99 (-7)).unknownService noService, ?_, ?_, ?_⟩
  · exact (answers 2 (-7)).unknownCall .emergency rfl noCall
  · exact (answers 2 9).known .emergency .videoShareTx rfl rfl
  · exact (answers 99 (-7)).extended careless.bytes (by decide +kernel)

end Codec

/-! ### Faults that stay -/

/-- What is wrong with an item is wrong with it whatever follows. -/
theorem Wire.readContent_append_of_isOfItem {b : Bytes} {fault : ReadFault} (y : Bytes)
    (h : Wire.readContent b = .error fault) (ofItem : fault.isOfItem = true) :
    Wire.readContent (b ++ y) = .error fault := by
  rw [Wire.readContent] at h ⊢
  cases found : Wire.Reader.content b with
  | ok p =>
    obtain ⟨content, rest⟩ := p
    rw [found] at h
    cases rest with
    | nil => cases h
    | cons b t =>
      -- The items are sound, and there are bytes behind them.
      cases h
      cases ofItem
  | error cause =>
    rw [found] at h
    obtain rfl : cause = fault := Except.error.inj h
    have settled : cause.isShortage = false := by
      cases cause <;> first | rfl | cases ofItem
    rw [Wire.Reader.steady_content.append_error y found settled]

namespace Codec

variable {c : Codec} {b : Bytes} {fault : Fault}

theorem readContent_append_of_isSettled {y : Bytes} (h : c.readContent b = .error fault)
    (settled : fault.isSettled = true) (fits : (b ++ y).length ≤ c.maxSize) :
    c.readContent (b ++ y) = .error fault := by
  have shorter : b.length ≤ c.maxSize := by
    rw [List.length_append] at fits
    omega
  rw [readContent, if_neg (Nat.not_lt.mpr shorter)] at h
  rw [readContent, if_neg (Nat.not_lt.mpr fits)]
  cases header : Wire.Reader.version b with
  | error cause =>
    rw [header] at h
    cases h
    cases settled
  | ok found =>
    obtain ⟨version, left⟩ := found
    rw [header] at h
    rw [Wire.Reader.steady_version.append_ok y header]
    by_cases supported : version = wireVersion
    · simp only [if_pos supported] at h ⊢
      cases hread : Wire.readContent b with
      | ok content =>
        rw [hread] at h
        cases h
      | error cause =>
        rw [hread] at h
        cases h
        rw [Wire.readContent_append_of_isOfItem y hread settled]
        rfl
    · simp only [if_neg supported] at h ⊢
      exact h

/-- **A malformed item is reported the same whatever follows.** A buffer that is refused for its
version, or for an item in it, is refused with the same fault whatever bytes are put behind it, as
long as the codec admits so many. -/
theorem decode_append_of_settled {y : Bytes} (refused : (c.decode b).value = .error fault)
    (settled : fault.isSettled = true) (fits : (b ++ y).length ≤ c.maxSize) :
    (c.decode (b ++ y)).value = .error fault := by
  rw [value_decode] at refused ⊢
  rcases read_eq_error_iff.mp refused with early | ⟨content, -, late⟩
  · exact read_of_readContent_eq_error (readContent_append_of_isSettled early settled fits)
  · -- Unknown codes are not settled: more bytes are found before they are.
    obtain ⟨kind, code, rfl⟩ := exists_unknownCode_of_ofContent late
    cases settled

/-- A buffer with a bool that is none in the first entry of its bag, which is to have as many
entries as can be declared. The service is unknown as well, and the buffer ends right there. -/
def crooked : Bytes :=
  [1, 0] ++ Wire.int32 99 ++ Wire.int32 1 ++ [1] ++ Wire.word 8 (2 ^ 64 - 1) ++ Wire.text "k"
    ++ Wire.word 4 Kind.bool.tag ++ [7]

theorem decode_append_of_settled_crooked :
    ((default : Codec).decode crooked).value = .error (.decoding (.malformed (.badBool 7))) ∧
      ((default : Codec).decode (crooked ++ careless.bytes)).value =
        .error (.decoding (.malformed (.badBool 7))) := by
  have refused : ((default : Codec).decode crooked).value =
      .error (.decoding (.malformed (.badBool 7))) := by cbv
  have fits : (crooked ++ careless.bytes).length ≤ (default : Codec).maxSize := by decide +kernel
  exact ⟨refused, decode_append_of_settled refused rfl fits⟩

end Codec

end ImsCall
