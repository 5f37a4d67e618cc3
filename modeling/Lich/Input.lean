import Lich.Client

/-! Reading from a client: the read loop and the packet loop. -/

set_option autoImplicit false

namespace Lich

/-- How the read loop of `readClientPackets` ends. -/
inductive ReadEnd where
  | blocked
  | eof
  | failed
  deriving DecidableEq

def Client.received (client : Client) (reads : List (List UInt8))
    (later : List (ReadAnswer 8192)) : Client :=
  { client with
    buf := client.buf ++ reads.flatten
    stream := { client.stream with
      reads := later
      journal := client.stream.journal ++ reads.map .got } }

def readLoop : List (ReadAnswer 8192) → Client → ReadEnd × Client
  | [], client => (.blocked, client.received [] [])
  | .ok slice :: later, client =>
    if slice.bytes = [] then (.eof, client.received [] later)
    else readLoop later (client.received [slice.bytes] later)
  | .err .wouldBlock :: later, client => (.blocked, client.received [] later)
  | .err .interrupted :: later, client => readLoop later (client.received [] later)
  | .err _ :: later, client => (.failed, client.received [] later)

def handlePacket (history : History) (now : Instant) (pkt : Packet) (client : Client)
    (master : Pty) : Client × Pty :=
  let client := client.log (.served pkt master.output.length)
  if pkt.typ = msgContent ∨ pkt.typ = msgSendKeys then
    if client.flags &&& clientReadonly = 0 then
      (client, (fdWriteAll (master.log (.input client.stream.id pkt.payload)) pkt.payload).2)
    else (client, master)
  else if pkt.typ = msgAttach then
    (sendHistory { client with attached := true, flags := (readU32 pkt.payload).getD 0 }
      history false, master)
  else if pkt.typ = msgDump then
    let client := sendHistory client history true
    (if client.closeAfterDrain.isNone then client.close .dumped now else client, master)
  else if pkt.typ = msgResize then
    if pkt.payload.length ≥ 4 then
      let rows := u16FromNeBytes (pkt.payload.take 2)
      let cols := u16FromNeBytes ((pkt.payload.drop 2).take 2)
      (client, (master.log (.resized client.stream.id rows cols)).log (.signalled .winch))
    else (client, master)
  else if pkt.typ = msgDetach ∨ pkt.typ = msgExit then (client.leave .detached, master)
  else (client, master)

/-- `while let Some(pkt) = pop_packet(buf)`. A packet takes eight bytes at
least, so the length of the buffer bounds the rounds. -/
def packetLoop (history : History) (now : Instant) :
    (rounds : Nat) → Client → Pty → Client × Pty
  | 0, client, master => (client, master)
  | rounds + 1, client, master =>
    match popPacket client.buf with
    | (none, buf) => ({ client with buf }, master)
    | (some pkt, buf) =>
      let (client, master) := handlePacket history now pkt { client with buf } master
      packetLoop history now rounds client master

def readClientPackets (client : Client) (master : Pty) (history : History) (now : Instant) :
    Client × Pty :=
  match readLoop client.stream.reads client with
  | (.failed, client) => (client.leave .readError, master)
  | (.blocked, client) => packetLoop history now (client.buf.length + 1) client master
  | (.eof, client) =>
    let (client, master) := packetLoop history now (client.buf.length + 1) client master
    (client.leave .endOfStream, master)

/-! ## The client's part -/

def Client.serve (client : Client) (history : History) (seen : Nat) (now : Instant)
    (pkt : Packet) : Client :=
  let client := client.log (.served pkt seen)
  if pkt.typ = msgAttach then
    sendHistory { client with attached := true, flags := (readU32 pkt.payload).getD 0 }
      history false
  else if pkt.typ = msgDump then
    let client := sendHistory client history true
    if client.closeAfterDrain.isNone then client.close .dumped now else client
  else if pkt.typ = msgDetach ∨ pkt.typ = msgExit then client.leave .detached
  else client

theorem handlePacket_fst (history : History) (now : Instant) (pkt : Packet) (client : Client)
    (master : Pty) :
    (handlePacket history now pkt client master).1 =
      client.serve history master.output.length now pkt := by
  unfold handlePacket Client.serve
  dsimp only
  by_cases keys : pkt.typ = msgContent ∨ pkt.typ = msgSendKeys
  · have other : pkt.typ ≠ msgAttach ∧ pkt.typ ≠ msgDump ∧
        ¬ (pkt.typ = msgDetach ∨ pkt.typ = msgExit) := by
      rcases keys with same | same <;> rw [same] <;> decide
    rw [if_pos keys, if_neg other.1, if_neg other.2.1, if_neg other.2.2]
    split <;> rfl
  · rw [if_neg keys]
    by_cases attach : pkt.typ = msgAttach
    · rw [if_pos attach, if_pos attach]
    · rw [if_neg attach, if_neg attach]
      by_cases dump : pkt.typ = msgDump
      · rw [if_pos dump, if_pos dump]
      · rw [if_neg dump, if_neg dump]
        by_cases resize : pkt.typ = msgResize
        · have other : ¬ (pkt.typ = msgDetach ∨ pkt.typ = msgExit) := by
            rw [resize]
            decide
          rw [if_pos resize, if_neg other]
          split <;> rfl
        · rw [if_neg resize]
          split <;> rfl

theorem handlePacket_output (history : History) (now : Instant) (pkt : Packet) (client : Client)
    (master : Pty) :
    (handlePacket history now pkt client master).2.output = master.output := by
  unfold handlePacket
  dsimp only
  repeat' split
  all_goals simp

theorem packetLoop_output (history : History) (now : Instant) (rounds : Nat) (client : Client)
    (master : Pty) : (packetLoop history now rounds client master).2.output = master.output := by
  induction rounds generalizing client master with
  | zero => rfl
  | succ rounds ih =>
    rw [packetLoop]
    split
    · rfl
    · exact (ih _ _).trans (handlePacket_output _ _ _ _ _)

theorem readClientPackets_output (client : Client) (master : Pty) (history : History)
    (now : Instant) : (readClientPackets client master history now).2.output = master.output := by
  unfold readClientPackets
  split
  · rfl
  · exact packetLoop_output _ _ _ _ _
  · exact packetLoop_output _ _ _ _ _

section Received

variable (client : Client) (reads : List (List UInt8)) (later : List (ReadAnswer 8192))

@[simp] theorem Client.received_attached : (client.received reads later).attached = client.attached :=
  rfl
@[simp] theorem Client.received_flags : (client.received reads later).flags = client.flags := rfl
@[simp] theorem Client.received_disconnected :
    (client.received reads later).disconnected = client.disconnected := rfl
@[simp] theorem Client.received_closeAfterDrain :
    (client.received reads later).closeAfterDrain = client.closeAfterDrain := rfl
@[simp] theorem Client.received_sendQueue :
    (client.received reads later).sendQueue = client.sendQueue := rfl
@[simp] theorem Client.received_buf :
    (client.received reads later).buf = client.buf ++ reads.flatten := rfl
@[simp] theorem Client.received_journal :
    (client.received reads later).stream.journal = client.stream.journal ++ reads.map .got := rfl

theorem Client.received_received (reads' : List (List UInt8)) (later' : List (ReadAnswer 8192)) :
    (client.received reads later).received reads' later' = client.received (reads ++ reads') later' := by
  simp [received, List.append_assoc]

end Received

theorem readLoop_received (answers : List (ReadAnswer 8192)) (client : Client) :
    ∃ reads later, (readLoop answers client).2 = client.received reads later := by
  induction answers generalizing client with
  | nil => exact ⟨[], [], rfl⟩
  | cons answer answers ih =>
    cases answer with
    | ok slice =>
      rw [readLoop]
      split
      · exact ⟨[], answers, rfl⟩
      · obtain ⟨reads, later, after⟩ := ih (client.received [slice.bytes] answers)
        exact ⟨[slice.bytes] ++ reads, later, after.trans (client.received_received _ _ _ _)⟩
    | err kind =>
      cases kind with
      | interrupted =>
        obtain ⟨reads, later, after⟩ := ih (client.received [] answers)
        exact ⟨[] ++ reads, later, after.trans (client.received_received _ _ _ _)⟩
      | _ => exact ⟨[], answers, rfl⟩

end Lich
