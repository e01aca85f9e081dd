import Shmipc.Common.Dialogue
import Shmipc.Protocol.Metadata

/-!
# The handshake

How a client tells the server where the shared memory is (protocol_initializer.go,
protocol_manager.go:60-150, 179-255, 354-407, block_io.go). A client with memory in
`/dev/shm` speaks version 2: it sends the two paths and is ready. A client with a memfd
speaks version 3: the versions are exchanged, the paths are sent, the server asks for the
descriptors and at last acknowledges.

Both sides block on the socket, where reads and writes go through in pieces of any size. A
system call may fail at any time, which ends the handshake with an error; a mapping that
fails does the same. `initProtocol` gives up after a timeout: the goroutine then goes on
alone, and its result is ignored.

Results, for paths of less than `2 ^ 16` bytes:
* `handshake_agreement`: if the server succeeds it has mapped the client's memory, each part
  once; a client with a memfd succeeds only after that; and no byte behind the handshake is
  read by it.
* `handshake_completes`: without failures both succeed, in every order.
-/

namespace Shmipc.Protocol

open Common
open Buffer (Go Panic)

/-! ## Model -/

/-- A byte on the unix domain socket, with the descriptors that are sent along. -/
structure Sym where
  byte : UInt8
  /-- The memory behind each descriptor. -/
  rights : List ℕ := []
  deriving DecidableEq

def plain (bs : List UInt8) : List Sym := bs.map fun b => ⟨b, []⟩

/-- The mapping of a shared memory by its path, or by a descriptor. -/
inductive Mapping
  | queue (path : List UInt8) (fd : Option ℕ)
  | buffer (path : List UInt8) (fd : Option ℕ)
  deriving DecidableEq

inductive InitErr
  | header (e : Err)
  | unsupportedVersion (version : UInt8)
  | unexpectedEvent (msgType : UInt8)
  /-- The message has too few descriptors. -/
  | noMemfd
  deriving DecidableEq

/-- How `initProtocol` ends. -/
inductive InitResult
  /-- With this `communicationVersion`. -/
  | ok (version : UInt8)
  | failed (e : InitErr)
  | panicked
  deriving DecidableEq

abbrev Process := Proc Sym Mapping InitResult

inductive MemMapType
  | devShmFile
  | memFd
  deriving DecidableEq

/-- The shared memory that the client has made. -/
structure ClientMem where
  queuePath : List UInt8
  bufferPath : List UInt8
  /-- What the two memfds are open on. -/
  queueFd : ℕ := 0
  bufferFd : ℕ := 0

def maxSupportProtoVersion : UInt8 := 3

/-- `blockWriteFull` (block_io.go:40-50). -/
def blockWriteFull (data : List UInt8) (k : Process) : Process := .write (plain data) k

/-- `blockReadFull` (block_io.go:25-38). -/
def blockReadFull (n : ℕ) (k : List UInt8 → Process) : Process := .read n fun xs => k (xs.map Sym.byte)

/-- `blockReadEventHeader` (protocol_manager.go:395-407). -/
def blockReadEventHeader (k : List UInt8 → Process) : Process :=
  blockReadFull headerSize fun h =>
    match checkEventValid h with
    | some e => .done (.failed (.header e))
    | none => k h

/-- `waitEventHeader` (protocol_manager.go:383-393). -/
def waitEventHeader (expectEventType : EventType) (k : List UInt8 → Process) : Process :=
  blockReadEventHeader fun h =>
    if Header.msgType h ≠ expectEventType.code then
      .done (.failed (.unexpectedEvent (Header.msgType h)))
    else k h

section Client

variable (mem : ClientMem)

/-- `sendShareMemoryByFilePath` (protocol_manager.go:354-363). -/
def sendShareMemoryByFilePath (version : UInt8) (k : Process) : Process :=
  blockWriteFull (generateShmMetadata mem.queuePath mem.bufferPath version .shareMemoryByFilePath) k

/-- `sendMemFdToPeer` (protocol_manager.go:365-381). `Sendmsg` without data sends one byte. -/
def sendMemFdToPeer (version : UInt8) (k : Process) : Process :=
  blockWriteFull (generateShmMetadata mem.queuePath mem.bufferPath version .shareMemoryByMemfd)
    (waitEventHeader .ackReadyRecvFD fun _ => .write [⟨0, [mem.bufferFd, mem.queueFd]⟩] k)

/-- `protocolInitializerV3.clientInit` (protocol_initializer.go:120-138). -/
def clientInit (memType : MemMapType) (k : UInt8 → Process) : Process :=
  let wait := waitEventHeader .ackShareMemory fun _ => k 3
  match memType with
  | .devShmFile => sendShareMemoryByFilePath mem 3 wait
  | .memFd => sendMemFdToPeer mem 3 wait

/-- The client's side of `initProtocol` (session.go:189-219): `clientGetProtocolInitializer`
    (protocol_manager.go:75-104) and `Init`. The rest of the client is `k`. -/
def clientProtocol (memType : MemMapType) (k : UInt8 → Process) : Process :=
  match memType with
  | .devShmFile => sendShareMemoryByFilePath mem 2 (k 2)
  | .memFd =>
    blockWriteFull (Header.encode headerSize maxSupportProtoVersion .exchangeProtoVersion)
      (waitEventHeader .exchangeProtoVersion fun h =>
        let chosenVersion := min maxSupportProtoVersion (Header.version h)
        if chosenVersion = 2 then sendShareMemoryByFilePath mem 2 (k 2)
        else if chosenVersion = 3 then clientInit mem memType k
        else .done (.failed (.unsupportedVersion chosenVersion)))

end Client

/-- `handleShareMemoryByFilePath` (protocol_manager.go:122-150). -/
def handleShareMemoryByFilePath (hdr : List UInt8) (k : Process) : Process :=
  blockReadFull (metadataLen hdr) fun body =>
    match extractShmMetadata body with
    | .error _ => .done .panicked
    | .ok (bufferPath, queuePath) =>
      .act (.queue queuePath none) (.act (.buffer bufferPath none) k)

/-- The second half of `handleShareMemoryByMemFd` (protocol_manager.go:206-255). `Recvmsg`
    without a buffer takes one byte; of the descriptors that come with it the first two are
    used. -/
def recvMemFds (queuePath bufferPath : List UInt8) (k : Process) : Process :=
  .read 1 fun xs =>
    match xs.flatMap Sym.rights with
    | bufferFd :: queueFd :: _ =>
      .act (.queue queuePath (some queueFd)) (.act (.buffer bufferPath (some bufferFd)) k)
    | _ => .done (.failed .noMemfd)

/-- `handleShareMemoryByMemFd` (protocol_manager.go:187-255). -/
def handleShareMemoryByMemFd (version : UInt8) (hdr : List UInt8) (k : Process) : Process :=
  blockReadFull (metadataLen hdr) fun body =>
    match extractShmMetadata body with
    | .error _ => .done .panicked
    | .ok (bufferPath, queuePath) =>
      blockWriteFull (Header.encode headerSize version .ackReadyRecvFD)
        (recvMemFds queuePath bufferPath k)

/-- `protocolInitializerV3.serverInit` from the second event on (protocol_initializer.go:94-118). -/
def serverShare (version : UInt8) (k : UInt8 → Process) : Process :=
  let ack := blockWriteFull (Header.encode headerSize version .ackShareMemory) (k version)
  blockReadEventHeader fun h =>
    if Header.msgType h = EventType.shareMemoryByFilePath.code then
      handleShareMemoryByFilePath h ack
    else if Header.msgType h = EventType.shareMemoryByMemfd.code then
      handleShareMemoryByMemFd version h ack
    else .done (.failed (.unexpectedEvent (Header.msgType h)))

/-- `protocolInitializerV3.serverInit` (protocol_initializer.go:83-118), with
    `handleExchangeVersion` (protocol_manager.go:179-185). -/
def serverInit (firstEvent : List UInt8) (k : UInt8 → Process) : Process :=
  if Header.msgType firstEvent ≠ EventType.exchangeProtoVersion.code then
    .done (.failed (.unexpectedEvent (Header.msgType firstEvent)))
  else
    let version := min (Header.version firstEvent) maxSupportProtoVersion
    blockWriteFull (Header.encode headerSize maxSupportProtoVersion .exchangeProtoVersion)
      (serverShare version k)

/-- The server's side of `initProtocol`: `serverGetProtocolInitializer`
    (protocol_manager.go:106-119) and `Init`. -/
def serverProtocol (k : UInt8 → Process) : Process :=
  blockReadEventHeader fun h =>
    if Header.version h = 2 then
      if Header.msgType h ≠ EventType.shareMemoryByFilePath.code then
        .done (.failed (.unexpectedEvent (Header.msgType h)))
      else handleShareMemoryByFilePath h (k 2)
    else if Header.version h = 3 then serverInit h k
    else .done (.failed (.unsupportedVersion (Header.version h)))

/-- What a side sends behind the handshake. -/
def andThen (later : List UInt8) (version : UInt8) : Process :=
  blockWriteFull later (.done (.ok version))

/-- Both sides; `true` is the client. -/
def handshake (mem : ClientMem) (memType : MemMapType) (later : Bool → List UInt8) : Bool → Process
  | true => clientProtocol mem memType (andThen (later true))
  | false => serverProtocol (andThen (later false))

/-- The version that both sides come to. -/
def MemMapType.version : MemMapType → UInt8
  | .devShmFile => 2
  | .memFd => 3

/-- What the server is to map. -/
def ClientMem.mappings (mem : ClientMem) : MemMapType → List Mapping
  | .devShmFile => [.queue mem.queuePath none, .buffer mem.bufferPath none]
  | .memFd => [.queue mem.queuePath (some mem.queueFd), .buffer mem.bufferPath (some mem.bufferFd)]

/-! ## What each side does with the messages of the other -/

section Meaning

variable {k : Process} {v : UInt8} {t : EventType} {inp : List Sym}

theorem map_byte_plain (bs : List UInt8) : (plain bs).map Sym.byte = bs := by
  simp [plain, Function.comp_def]

theorem length_plain (bs : List UInt8) : (plain bs).length = bs.length := by simp [plain]

theorem plain_append (bs bs' : List UInt8) : plain (bs ++ bs') = plain bs ++ plain bs' := by simp [plain]

/-- The writes of some bytes, in a trace. -/
def wrote (bs : List UInt8) : List (Sym ⊕ Mapping) := (plain bs).map .inl

theorem lefts_wrote (bs : List UInt8) : lefts (wrote bs) = plain bs := lefts_map_inl _

theorem meaning_write (bs : List UInt8) :
    (blockWriteFull bs k).meaning inp = (k.meaning inp).after (wrote bs) 0 := rfl

theorem meaning_read {n : ℕ} {k : List UInt8 → Process} {bs : List UInt8} (hn : bs.length = n) :
    (blockReadFull n k).meaning (plain bs ++ inp) = ((k bs).meaning inp).after [] n := by
  unfold blockReadFull
  rw [Proc.meaning_read (by rw [length_plain, hn]), map_byte_plain]

theorem meaning_header {k : List UInt8 → Process} (len : ℕ) (hv : v ≠ 0) :
    (blockReadEventHeader k).meaning (plain (Header.encode len v t) ++ inp) =
      ((k (Header.encode len v t)).meaning inp).after [] headerSize := by
  unfold blockReadEventHeader
  rw [meaning_read (Header.length_encode len v t), checkEventValid_encode len v t hv]

theorem meaning_wait {k : List UInt8 → Process} (len : ℕ) (hv : v ≠ 0) :
    (waitEventHeader t k).meaning (plain (Header.encode len v t) ++ inp) =
      ((k (Header.encode len v t)).meaning inp).after [] headerSize := by
  unfold waitEventHeader
  rw [meaning_header len hv, if_neg (by rw [Header.msgType_of_encode]; simp)]

variable (mem : ClientMem)

/-- The body of the metadata. -/
def ClientMem.body : List UInt8 := lengthPrefixed mem.queuePath ++ lengthPrefixed mem.bufferPath

/-- Both paths fit their length fields. -/
def ClientMem.Short : Prop := mem.queuePath.length < 2 ^ 16 ∧ mem.bufferPath.length < 2 ^ 16

/-- The header of the metadata. -/
def ClientMem.header (v : UInt8) (t : EventType) : List UInt8 :=
  Header.encode (headerSize + mem.body.length) v t

theorem metadata_eq (v : UInt8) (t : EventType) :
    generateShmMetadata mem.queuePath mem.bufferPath v t = mem.header v t ++ mem.body := rfl

variable {mem}

theorem ClientMem.Short.metadataLen (h : mem.Short) : metadataLen (mem.header v t) = mem.body.length := by
  have hlen : mem.body.length < 2 ^ 17 + 4 := by
    have := h.1
    have := h.2
    simp only [ClientMem.body, lengthPrefixed, List.length_append, length_be]
    omega
  unfold Protocol.metadataLen ClientMem.header headerSize
  rw [Header.length_of_encode]
  unfold u32
  omega

theorem ClientMem.Short.extract (h : mem.Short) :
    extractShmMetadata mem.body = .ok (mem.bufferPath, mem.queuePath) := by
  have hex := extractShmMetadata_generate [] h.1 h.2
  rwa [List.append_nil] at hex

theorem meaning_filePath (h : mem.Short) :
    (handleShareMemoryByFilePath (mem.header v t) k).meaning (plain mem.body ++ inp) =
      (k.meaning inp).after [.inr (.queue mem.queuePath none), .inr (.buffer mem.bufferPath none)]
        mem.body.length := by
  unfold handleShareMemoryByFilePath
  rw [h.metadataLen, meaning_read rfl, h.extract]
  simp only [Proc.meaning, Meaning.after_after]
  rfl

/-- An event without a body. -/
def event (t : EventType) : List UInt8 := Header.encode headerSize maxSupportProtoVersion t

theorem meaning_memFd (h : mem.Short) :
    (handleShareMemoryByMemFd 3 (mem.header v t) k).meaning (plain mem.body ++ inp) =
      ((recvMemFds mem.queuePath mem.bufferPath k).meaning inp).after (wrote (event .ackReadyRecvFD))
        mem.body.length := by
  unfold handleShareMemoryByMemFd
  rw [h.metadataLen, meaning_read rfl, h.extract]
  simp only [meaning_write, Meaning.after_after]
  rfl

theorem meaning_fds :
    (recvMemFds mem.queuePath mem.bufferPath k).meaning (⟨0, [mem.bufferFd, mem.queueFd]⟩ :: inp) =
      (k.meaning inp).after [.inr (.queue mem.queuePath (some mem.queueFd)),
        .inr (.buffer mem.bufferPath (some mem.bufferFd))] 1 := by
  unfold recvMemFds
  rw [← List.singleton_append, Proc.meaning_read List.length_singleton]
  simp only [List.flatMap_cons, List.flatMap_nil, List.append_nil, Proc.meaning, Meaning.after_after]
  rfl

theorem meaning_andThen (later : List UInt8) (inp : List Sym) :
    (andThen later v).meaning inp = ⟨wrote later, 0, some (.ok v)⟩ := by
  simp [andThen, meaning_write, Proc.meaning, Meaning.after]

end Meaning

/-! ## The handshake that succeeds -/

section Plans

variable {mem : ClientMem} {k : UInt8 → Process} (inp : List Sym)

/-- The metadata of a client with memory in `/dev/shm`. -/
def ClientMem.byFilePath (mem : ClientMem) : List UInt8 :=
  generateShmMetadata mem.queuePath mem.bufferPath 2 .shareMemoryByFilePath

/-- The metadata of a client with a memfd. -/
def ClientMem.byMemFd (mem : ClientMem) : List UInt8 :=
  generateShmMetadata mem.queuePath mem.bufferPath 3 .shareMemoryByMemfd

/-- The byte that carries the descriptors. -/
def ClientMem.fds (mem : ClientMem) : Sym := ⟨0, [mem.bufferFd, mem.queueFd]⟩

theorem client_devShmFile :
    (clientProtocol mem .devShmFile k).meaning inp = ((k 2).meaning inp).after (wrote mem.byFilePath) 0 :=
  rfl

theorem server_byFilePath (h : mem.Short) :
    (serverProtocol k).meaning (plain mem.byFilePath ++ inp) =
      ((k 2).meaning inp).after ((mem.mappings .devShmFile).map .inr) mem.byFilePath.length := by
  have hlen : mem.byFilePath.length = headerSize + mem.body.length := by
    rw [ClientMem.byFilePath, metadata_eq, List.length_append, ClientMem.header, Header.length_encode]
  rw [hlen, ClientMem.byFilePath, metadata_eq, plain_append, List.append_assoc, serverProtocol,
    ClientMem.header, meaning_header _ (by decide), Header.version_of_encode, if_pos rfl,
    if_neg (by rw [Header.msgType_of_encode]; simp), ← ClientMem.header, meaning_filePath h,
    Meaning.after_after]
  rfl

/-- The client has sent its version, and reads the server's. -/
theorem client_hello :
    (clientProtocol mem .memFd k).meaning (plain (event .exchangeProtoVersion) ++ inp) =
      ((clientInit mem .memFd k).meaning inp).after (wrote (event .exchangeProtoVersion)) headerSize := by
  rw [clientProtocol]
  simp only [meaning_write, event]
  rw [meaning_wait _ (by decide), Header.version_of_encode, Meaning.after_after]
  rw [if_neg (by decide), if_pos (by decide)]
  simp

/-- It sends the metadata, and reads that the server is ready for the descriptors. -/
theorem client_metadata :
    (clientInit mem .memFd k).meaning (plain (event .ackReadyRecvFD) ++ inp) =
      ((waitEventHeader .ackShareMemory fun _ => k 3).meaning inp).after
        (wrote mem.byMemFd ++ [.inl mem.fds]) headerSize := by
  simp only [clientInit, sendMemFdToPeer, meaning_write]
  rw [event, meaning_wait _ (by decide), Proc.meaning, Meaning.after_after, Meaning.after_after]
  simp [ClientMem.byMemFd, ClientMem.fds]

theorem client_ack :
    (waitEventHeader .ackShareMemory fun _ => k 3).meaning (plain (event .ackShareMemory) ++ inp) =
      ((k 3).meaning inp).after [] headerSize := by
  rw [event, meaning_wait _ (by decide)]

theorem server_hello :
    (serverProtocol k).meaning (plain (event .exchangeProtoVersion) ++ inp) =
      ((serverShare 3 k).meaning inp).after (wrote (event .exchangeProtoVersion)) headerSize := by
  rw [serverProtocol, event, meaning_header _ (by decide), Header.version_of_encode, if_neg (by decide),
    if_pos (by decide), serverInit, if_neg (by rw [Header.msgType_of_encode]; simp), Header.version_of_encode]
  simp only [meaning_write, Meaning.after_after]
  rfl

theorem server_metadata (h : mem.Short) :
    (serverShare 3 k).meaning (plain mem.byMemFd ++ inp) =
      ((recvMemFds mem.queuePath mem.bufferPath
        (blockWriteFull (event .ackShareMemory) (k 3))).meaning inp).after
        (wrote (event .ackReadyRecvFD)) (headerSize + mem.body.length) := by
  rw [ClientMem.byMemFd, metadata_eq, plain_append, List.append_assoc, serverShare, ClientMem.header,
    meaning_header _ (by decide), Header.msgType_of_encode, if_neg (by decide), if_pos rfl,
    ← ClientMem.header, meaning_memFd h, Meaning.after_after]
  rfl

variable (later : Bool → List UInt8)

/-- What each side reads of the other. -/
def messages (mem : ClientMem) : MemMapType → Bool → List Sym
  | .devShmFile, true => []
  | .devShmFile, false => plain mem.byFilePath
  | .memFd, true => plain (event .exchangeProtoVersion) ++ (plain (event .ackReadyRecvFD) ++
      plain (event .ackShareMemory))
  | .memFd, false => plain (event .exchangeProtoVersion) ++ (plain mem.byMemFd ++ [mem.fds])

/-- What each side writes and maps. -/
def doings (mem : ClientMem) : MemMapType → Bool → List (Sym ⊕ Mapping)
  | .devShmFile, true => wrote mem.byFilePath
  | .devShmFile, false => (mem.mappings .devShmFile).map .inr
  | .memFd, true => wrote (event .exchangeProtoVersion) ++ (wrote mem.byMemFd ++ [.inl mem.fds])
  | .memFd, false => wrote (event .exchangeProtoVersion) ++ (wrote (event .ackReadyRecvFD) ++
      ((mem.mappings .memFd).map .inr ++ wrote (event .ackShareMemory)))

theorem length_event (t : EventType) : (event t).length = headerSize := Header.length_encode _ _ _

theorem length_byMemFd : mem.byMemFd.length = headerSize + mem.body.length := by
  rw [ClientMem.byMemFd, metadata_eq, List.length_append, ClientMem.header, Header.length_encode]

theorem meaning_messages (h : mem.Short) (memType : MemMapType) (b : Bool) :
    (handshake mem memType later b).meaning (messages mem memType b) =
      ⟨doings mem memType b ++ wrote (later b), (messages mem memType b).length,
        some (.ok memType.version)⟩ := by
  cases memType with
  | devShmFile =>
    cases b with
    | true =>
      rw [handshake, client_devShmFile, meaning_andThen]
      rfl
    | false =>
      have hserver := server_byFilePath (k := andThen (later false)) [] h
      rw [List.append_nil, meaning_andThen] at hserver
      rw [handshake, messages, hserver, length_plain]
      rfl
  | memFd =>
    cases b with
    | true =>
      have hack := client_ack (k := andThen (later true)) []
      rw [List.append_nil, meaning_andThen] at hack
      rw [handshake, messages, client_hello, client_metadata, hack]
      simp only [Meaning.after, doings, List.length_append, length_plain, length_event, List.append_assoc]
      rfl
    | false =>
      rw [handshake, messages, server_hello, server_metadata _ h, ClientMem.fds, meaning_fds, meaning_write,
        meaning_andThen]
      simp only [Meaning.after, doings, List.length_append, length_plain, length_event, length_byMemFd,
        List.append_assoc]
      rfl

theorem lefts_doings (memType : MemMapType) (b : Bool) :
    lefts (doings mem memType b) = messages mem memType !b := by
  cases memType <;> cases b <;>
    simp only [doings, messages, lefts_append, lefts_wrote, lefts_map_inr, Bool.not_true, Bool.not_false,
      List.nil_append]
  rfl

theorem rights_doings (memType : MemMapType) :
    rights (doings mem memType false) = mem.mappings memType := by
  cases memType <;> simp [doings, wrote]

/-- Each side sends its next message as soon as it has got the last one of the other. -/
theorem causal_memFd (h : mem.Short) :
    messages mem .memFd false <+: reply (handshake mem .memFd later) 5 false := by
  have hhello : plain (event .exchangeProtoVersion) <+:
      reply (handshake mem .memFd later) 1 false := by
    refine reply_succ List.nil_prefix ?_
    rw [Bool.not_false, handshake, clientProtocol, meaning_write, Meaning.out_after, lefts_wrote]
    exact List.prefix_append _ _
  have hversion : plain (event .exchangeProtoVersion) <+:
      reply (handshake mem .memFd later) 2 true := by
    refine reply_succ hhello ?_
    have hserver := server_hello (k := andThen (later false)) []
    rw [List.append_nil] at hserver
    rw [Bool.not_true, handshake, hserver, Meaning.out_after, lefts_wrote]
    exact List.prefix_append _ _
  have hmetadata : plain (event .exchangeProtoVersion) ++ plain mem.byMemFd <+:
      reply (handshake mem .memFd later) 3 false := by
    refine reply_succ hversion ?_
    have hclient := @client_hello mem (andThen (later true)) []
    rw [List.append_nil] at hclient
    rw [Bool.not_false, handshake, hclient, clientInit]
    simp only [sendMemFdToPeer, meaning_write, Meaning.out_after, lefts_wrote, ← List.append_assoc]
    exact List.prefix_append _ _
  have hready : plain (event .exchangeProtoVersion) ++ plain (event .ackReadyRecvFD) <+:
      reply (handshake mem .memFd later) 4 true := by
    refine reply_succ hmetadata ?_
    have hserver := server_metadata (k := andThen (later false)) [] h
    rw [List.append_nil] at hserver
    rw [Bool.not_true, handshake, server_hello, hserver]
    simp only [Meaning.out_after, lefts_wrote, ← List.append_assoc]
    exact List.prefix_append _ _
  refine reply_succ hready ?_
  have hclient := @client_metadata mem (andThen (later true)) []
  rw [List.append_nil] at hclient
  rw [Bool.not_false, handshake, client_hello, hclient]
  simp only [Meaning.out_after, lefts_append, lefts_wrote, messages, ← List.append_assoc]
  exact List.prefix_append _ _

/-- The run that succeeds. -/
def plan (h : mem.Short) (memType : MemMapType) : Plan (handshake mem memType later) where
  input := messages mem memType
  later b := plain (later b)
  result _ := .ok memType.version
  out b := by
    rw [meaning_messages later h memType b, Meaning.out, lefts_append, lefts_doings, lefts_wrote]
  used b := by rw [meaning_messages later h memType b]
  done b := by rw [meaning_messages later h memType b]
  causal := by
    cases memType with
    | devShmFile => exact ⟨0, true, List.nil_prefix⟩
    | memFd => exact ⟨5, false, causal_memFd later h⟩

variable {later} {memType : MemMapType} {s : Talk Sym Mapping InitResult}

theorem rights_meaning (h : mem.Short) :
    rights ((handshake mem memType later false).meaning (messages mem memType false)).trace =
      mem.mappings memType := by
  rw [meaning_messages later h, rights_append, rights_doings, wrote, rights_map_inl, List.append_nil]

theorem mapped_le (h : mem.Short)
    (hr : (Talk.runs (handshake mem memType later)).Reachable s) :
    rights (s.side false).trace <+: mem.mappings memType := by
  rw [← @rights_meaning mem later memType h]
  exact ((plan later h memType).trace_le hr false).filterMap Sum.getRight?

/-- The server acknowledges after it has mapped the memory. -/
theorem mapped_of_client (h : mem.Short) {r : InitResult}
    (hr : (Talk.runs (handshake mem .memFd later)).Reachable s) (hd : (s.side true).proc = .done r) :
    rights (s.side false).trace = mem.mappings .memFd := by
  have htr : ((handshake mem .memFd later false).meaning (messages mem .memFd false)).trace =
      (wrote (event .exchangeProtoVersion) ++ (wrote (event .ackReadyRecvFD) ++
        (mem.mappings .memFd).map .inr)) ++ (wrote (event .ackShareMemory) ++ wrote (later false)) := by
    rw [meaning_messages later h]
    simp [doings]
  have hpre := (plan later h .memFd).ended_other hr hd htr <| by
    change _ < (messages mem .memFd true).length
    simp only [messages, lefts_append, lefts_wrote, lefts_map_inr, List.length_append, length_plain,
      length_event, headerSize, List.length_nil]
    omega
  have hmapped := hpre.filterMap Sum.getRight?
  change rights _ <+: rights (s.side false).trace at hmapped
  simp only [rights_append, wrote, rights_map_inl, rights_map_inr, List.nil_append] at hmapped
  exact (mapped_le h hr).eq_of_length (le_antisymm (mapped_le h hr).length_le hmapped.length_le)

end Plans

/-- **Agreement.** Whatever the order, the pieces and the failures: a side that comes to the
    end succeeds, with the same version as the other; a server that does has mapped the memory of
    the client, and a client with a memfd does so only after that. The server never maps
    anything else, and no side reads a byte behind the handshake. -/
theorem handshake_agreement {mem : ClientMem} {memType : MemMapType} {later : Bool → List UInt8}
    {s : Talk Sym Mapping InitResult} (h : mem.Short)
    (hr : (Talk.runs (handshake mem memType later)).Reachable s) :
    (∀ b r, (s.side b).proc = .done r → r = .ok memType.version) ∧
    (∀ r, (s.side false).proc = .done r → rights (s.side false).trace = mem.mappings memType) ∧
    (∀ r, memType = .memFd → (s.side true).proc = .done r →
      rights (s.side false).trace = mem.mappings memType) ∧
    rights (s.side false).trace <+: mem.mappings memType ∧
    ∀ b, (s.side b).consumed <+: messages mem memType b := by
  refine ⟨fun b r hd => ((plan later h memType).ended hr hd).1, fun r hd => ?_, ?_, mapped_le h hr,
    ((plan later h memType).consumed_le hr).2⟩
  · rw [((plan later h memType).ended hr hd).2.2]
    exact rights_meaning h
  · rintro r rfl hd
    exact mapped_of_client h hr hd

/-- The steps of a handshake with a memfd in which each message goes through at once. -/
def memFdRun : List (Bool × IoStep) := [
  (true, .write 8), (true, .complete), (false, .read 8), (false, .complete), (false, .write 8),
  (false, .complete), (true, .read 8), (true, .complete), (true, .write 14), (true, .complete),
  (false, .read 8), (false, .complete), (false, .read 6), (false, .complete), (false, .write 8),
  (false, .complete), (true, .read 8), (true, .complete), (true, .write 1), (true, .complete),
  (false, .read 1), (false, .complete), (false, .act), (false, .act), (false, .write 8),
  (true, .read 8), (true, .complete), (true, .write 2), (true, .complete)]

theorem handshake_agreement_memFd : ∃ s : Talk Sym Mapping InitResult,
    (Talk.runs (handshake ⟨[1], [2], 7, 9⟩ .memFd fun _ => [5, 6])).Reachable s ∧
      (s.side true).proc = .done (.ok 3) ∧ s.inbox false = plain [5, 6] ∧
      rights (s.side false).trace = [.queue [1] (some 7), .buffer [2] (some 9)] := by
  obtain ⟨s, hr, hdone, hin⟩ :=
    (Talk.runs (handshake ⟨[1], [2], 7, 9⟩ .memFd fun _ => [5, 6])).exists_reachable_of_run _ memFdRun
      (fun s => (s.side true).proc.result? = some (.ok 3) ∧ s.inbox false = plain [5, 6]) rfl
      (by decide +kernel)
  have hd := Proc.result?_eq_some.mp hdone
  exact ⟨s, hr, hd, hin, (handshake_agreement (by unfold ClientMem.Short; decide) hr).2.2.1 _ rfl hd⟩

/-- **Completion.** As long as no system call fails, both sides will succeed. -/
theorem handshake_completes {mem : ClientMem} {memType : MemMapType} {later : Bool → List UInt8}
    {s : Talk Sym Mapping InitResult} (h : mem.Short)
    (hr : (Talk.runs (handshake mem memType later)).ReachableWhen (fun _ a => a.2 ≠ .fail) s) :
    (Talk.runs (handshake mem memType later)).Inevitable (fun a => a.2 ≠ .fail)
      (fun s => ∀ b, (s.side b).proc = .done (.ok memType.version)) s :=
  (plan later h memType).inevitable ((plan later h memType).going_of_reachable hr)

theorem handshake_completes_memFd : ∃ s : Talk Sym Mapping InitResult,
    (Talk.runs (handshake ⟨[1], [2], 7, 9⟩ .memFd fun _ => [5, 6])).ReachableWhen
      (fun _ a => a.2 ≠ .fail) s ∧
    (s.side false).consumed.length = 16 ∧
    (Talk.runs (handshake ⟨[1], [2], 7, 9⟩ .memFd fun _ => [5, 6])).Inevitable (fun a => a.2 ≠ .fail)
      (fun s => ∀ b, (s.side b).proc = .done (.ok 3)) s := by
  obtain ⟨s, hr, hp⟩ := (Talk.runs (handshake ⟨[1], [2], 7, 9⟩ .memFd
    fun _ => [5, 6])).exists_reachableWhen_of_run (fun _ a => a.2 ≠ .fail)
    _ (memFdRun.take 11) (fun s => (s.side false).consumed.length = 16) rfl
    (by decide +kernel) (by decide +kernel)
  exact ⟨s, hr, hp, handshake_completes (by unfold ClientMem.Short; decide) hr⟩

end Shmipc.Protocol
