import SparkProtocol.Meetings
import SparkProtocol.Peers

/-!
# A session and its device, from the connection on

The two greet each other, and each begins to talk when its own handshake has resolved:
the session first, while its last message is still on the way to the device. From then
on the host sends and asks and the device says what it likes, as long as each message
fits one frame, requests time out, and the network cuts and delays both streams. Nothing
is lost, repeated or reordered in either direction, from the first byte on, and whatever
is on its way at any moment arrives under every schedule.
-/
namespace SparkProtocol.Sessions
open ByteStrings HostValues StreamPrograms Program Crypto Chunking Coap Messages Handshake
  ByteQueues OrderedMaps FramedStreams BlockChaining StreamWeaving LabelledRuns Session

inductive Remote where
  | greeting (p : DeviceProgram DeviceResult)
  | talking (peer : Peer)

/-- A device whose handshake has returned begins to talk. -/
def Remote.after : DeviceProgram DeviceResult → Remote
  | .done result => .talking (.greeted result)
  | p => .greeting p

def Remote.said : Remote → List Bytes
  | .greeting _ => []
  | .talking peer => peer.said

def Remote.heard : Remote → List Bytes
  | .greeting _ => []
  | .talking peer => peer.heard

structure Conversation where
  server : Session
  toServer : Bytes := []
  remote : Remote
  buffered : Bytes := []
  toDevice : Bytes

inductive ConversationEvent where
  | toServer (n : ℕ)
  | toDevice (n : ℕ)
  | server (turn : ServerTurn)
  /-- The device reads on, or hears the next frame. -/
  | device
  /-- The host sends or asks, or a request times out. -/
  | host (e : Event)
  | say (plain : Bytes)

/-- What a host does with a connected session, time included. -/
def Event.ofHost : Event → Bool
  | .send _ _ => true
  | .request _ _ _ => true
  | .requestTimeout _ => true
  | _ => false

namespace Conversation

def link (c : Conversation) : Link := ⟨c.server,c.toServer⟩

def said (c : Conversation) : List Bytes := c.remote.said

def heard (c : Conversation) : List Bytes := c.remote.heard

/-- The session and the bytes on their way to it have moved. -/
def linked (c : Conversation) (l : Link) : Conversation :=
  { c with server := l.session, toServer := l.wire
           toDevice := c.toDevice++newlyWritten c.server l.session }

/-- The session has taken a step, and what it has written is on its way. -/
def moved (c : Conversation) (s : Session) : Conversation :=
  { c with server := s, toDevice := c.toDevice++newlyWritten c.server s }

def deviceTurn (node : Primitives) (c : Conversation) : Option Conversation :=
  match c.remote with
  | .greeting (.read n k) =>
      if n ≤ c.buffered.length then
        let p := (k (.ok (c.buffered.take n))).burst
        some { c with remote := .after p.2, buffered := c.buffered.drop n
                      toServer := c.toServer++sent p.1 }
      else none
  | .greeting _ => none
  | .talking peer =>
      (peer.hear node c.buffered).map fun r => { c with remote := .talking r.1, buffered := r.2 }

end Conversation

/-- The host uses a session after its handshake, for messages that fit a frame. -/
def conversationStep (cfg : Config) (svc : Services) (c : Conversation) :
    ConversationEvent → Option Conversation
  | .toServer n =>
      if 0 < n ∧ n ≤ c.toServer.length then
        some { c with server := c.server.onData (c.toServer.take n), toServer := c.toServer.drop n }
      else none
  | .toDevice n =>
      if 0 < n ∧ n ≤ c.toDevice.length then
        some { c with buffered := c.buffered++c.toDevice.take n, toDevice := c.toDevice.drop n }
      else none
  | .server turn => (step cfg c.server (turn.event svc)).map c.moved
  | .device => c.deviceTurn cfg.node
  | .host e =>
      if e.ofHost ∧ c.server.phase = .connected ∧ (outgoing cfg.node c.server e).all fun p => Fits p then
        (step cfg c.server e).map c.moved
      else none
  | .say plain =>
      match c.remote with
      | .greeting _ => none
      | .talking peer => (peer.say cfg.node plain).map fun r =>
          { c with remote := .talking r.1, toServer := c.toServer++r.2 }

/-- The steps that are due without anything new from the host or the device. -/
def ConversationEvent.due : ConversationEvent → Bool
  | .host _ => false
  | .say _ => false
  | _ => true

def dueTurn (cfg : Config) (svc : Services) (c : Conversation) (e : ConversationEvent) :
    Option Conversation :=
  if e.due then conversationStep cfg svc c e else none

/-- The session has been accepted and the device has connected. -/
def converse (cfg : Config) (svc : Services) (d : Device) : Conversation :=
  { server := ({} : Session).run cfg
    remote := .greeting (simulateDevice cfg.node svc.rsa d)
    toDevice := newlyWritten {} (({} : Session).run cfg) }

/-- A step once the session is in its message loop. -/
inductive Converses (cfg : Config) (c : Conversation) : ConversationEvent → Conversation → Prop
  | link {e : ConversationEvent} {le : LinkEvent} {l : Link} : linkStep cfg c.link le = some l →
      (∀ p, le.sends cfg c.link = some p → Fits p) → (e.due = true → le.due = true) →
      Converses cfg c e (c.linked l)
  | arrives {n : ℕ} : 0 < n → n ≤ c.toDevice.length → Converses cfg c (.toDevice n)
      { c with buffered := c.buffered++c.toDevice.take n, toDevice := c.toDevice.drop n }
  | reads {n : ℕ} {k : Except JsError Bytes → DeviceProgram DeviceResult} :
      c.remote = .greeting (.read n k) → n ≤ c.buffered.length → Converses cfg c .device
      { c with remote := .after (k (.ok (c.buffered.take n))).burst.2, buffered := c.buffered.drop n
               toServer := c.toServer++sent (k (.ok (c.buffered.take n))).burst.1 }
  | hears {peer peer' : Peer} {rest : Bytes} : c.remote = .talking peer →
      peer.hear cfg.node c.buffered = some (peer',rest) → Converses cfg c .device
      { c with remote := .talking peer', buffered := rest }
  | speaks {peer peer' : Peer} {plain f : Bytes} : c.remote = .talking peer →
      peer.say cfg.node plain = some (peer',f) → Converses cfg c (.say plain)
      { c with remote := .talking peer', toServer := c.toServer++f }

section Steps
variable {cfg : Config} {svc : Services} {c c' : Conversation} {e : ConversationEvent}

theorem newlyWritten_data (s : Session) (chunk : Bytes) : newlyWritten s (s.onData chunk) = [] :=
  newlyWritten_eq (l := []) (List.append_nil _).symm

theorem deviceTurn_cases (h : c.deviceTurn cfg.node = some c') : Converses cfg c .device c' := by
  unfold Conversation.deviceTurn at h
  split at h
  · next n k hr =>
      split_ifs at h with hn
      obtain rfl := Option.some.inj h
      exact .reads hr hn
  · cases h
  · next peer hr =>
      obtain ⟨⟨peer',rest⟩,hhear,rfl⟩ := Option.map_eq_some_iff.mp h
      exact .hears hr hhear

/-- A turn of a session in its loop is a step of the link, and one that is due. -/
theorem turn_link {turn : ServerTurn} {s t : Session} {w : Bytes} (hf : Framed s)
    (h : step cfg s (turn.event svc) = some t) : ∃ le : LinkEvent, linkStep cfg ⟨s,w⟩ le = some ⟨t,w⟩ ∧
      le.due = true ∧ le.sends cfg ⟨s,w⟩ = outgoing cfg.node s (turn.event svc) := by
  cases turn with
  | resume =>
      have h : step cfg s .resume = some t := h
      exact ⟨.session .resume,by simp [linkStep,Event.leavesOpen,h],rfl,rfl⟩
  | loop =>
      have h : step cfg s .loop = some t := h
      exact ⟨.session .loop,by simp [linkStep,Event.leavesOpen,h],rfl,rfl⟩
  | answer =>
      cases step_cases h with
      | answer a hc => simp [Framed,hc] at hf

theorem conversationStep_cases (hf : Framed c.server) (h : conversationStep cfg svc c e = some c') :
    Converses cfg c e c' := by
  cases e with
  | toServer n =>
      dsimp only [conversationStep] at h
      split_ifs at h with hn
      obtain rfl := Option.some.inj h
      have hlink : linkStep cfg c.link (.deliver n) =
          some ⟨c.server.onData (c.toServer.take n),c.toServer.drop n⟩ := if_pos hn.2
      have hmove := Converses.link (e := .toServer n) hlink (fun p hp => by cases hp)
        fun _ => decide_eq_true hn.1
      rwa [Conversation.linked,newlyWritten_data,List.append_nil] at hmove
  | toDevice n =>
      dsimp only [conversationStep] at h
      split_ifs at h with hn
      obtain rfl := Option.some.inj h
      exact .arrives hn.1 hn.2
  | server turn =>
      obtain ⟨s,hs,rfl⟩ := Option.map_eq_some_iff.mp h
      obtain ⟨le,hlink,hdue,-⟩ := turn_link (w := c.toServer) hf hs
      have hshort : ∀ p, le.sends cfg c.link = some p → p.length ≤ 12 := due_short hdue
      exact .link hlink (fun p hp => by have := hshort p hp; unfold Fits; omega) fun _ => hdue
  | device => exact deviceTurn_cases h
  | host e =>
      dsimp only [conversationStep] at h
      split_ifs at h with hhost
      obtain ⟨hof,-,hfits⟩ := hhost
      obtain ⟨s,hs,rfl⟩ := Option.map_eq_some_iff.mp h
      have hopen : e.leavesOpen = true := by cases e <;> first | rfl | cases hof
      have hlink : linkStep cfg c.link (.session e) = some ⟨s,c.toServer⟩ := by
        simp only [linkStep,hopen,↓reduceIte,Conversation.link,hs,Option.map_some]
      refine .link hlink (fun p hp => ?_) fun hdue => by cases hdue
      have hp : outgoing cfg.node c.server e = some p := hp
      rw [hp] at hfits
      exact of_decide_eq_true hfits
  | say plain =>
      dsimp only [conversationStep] at h
      split at h
      · cases h
      · next peer hr =>
          obtain ⟨⟨peer',f⟩,hsay,rfl⟩ := Option.map_eq_some_iff.mp h
          exact .speaks hr hsay

end Steps

/-- What is left to do of the bytes on their way. -/
def Conversation.cost (c : Conversation) : ℕ :=
  40*remaining c.link+2*c.toDevice.length+c.buffered.length

/-- The session is done with its handshake; the device has still to read the end of it,
and after it what has been said since. -/
structure Greeted (cfg : Config) (res : DeviceResult) (id : String) (rank : ℕ) (c : Conversation) :
    Prop where
  rest : ∃ p u due extra, c.remote = .greeting p ∧ Runs p u (.done res) ∧ p.Waits ∧
    Weave [] due ([] : History) u ∧ c.buffered++c.toDevice = due++extra ∧
    rank = c.cost+weight u ∧ Attached cfg (.greeted res) id [] [] extra c.link

structure Talking (cfg : Config) (res : DeviceResult) (id : String) (rank : ℕ) (c : Conversation) :
    Prop where
  rest : ∃ peer handled todo, c.remote = .talking peer ∧ peer.result = res ∧
    peer.said = handled++todo ∧ rank = c.cost ∧
    Attached cfg peer id handled todo (c.buffered++c.toDevice) c.link

/-- The session is in its loop. -/
inductive Open (cfg : Config) (res : DeviceResult) (id : String) (rank : ℕ) (c : Conversation) : Prop
  | greeted : Greeted cfg res id rank c → Open cfg res id rank c
  | talking : Talking cfg res id rank c → Open cfg res id rank c

section Opened
variable {cfg : Config} {svc : Services} {c c' : Conversation} {e : ConversationEvent}
  {res : DeviceResult} {id : String} {rank : ℕ}

/-- A due step of the link lowers what is left to do, whatever it writes. -/
theorem link_costs {peer : Peer} {handled todo : List Bytes} {b : Bytes} {le : LinkEvent} {l : Link}
    (h : Attached cfg peer id handled todo b c.link) (hlink : linkStep cfg c.link le = some l)
    (hdue : le.due = true) : (c.linked l).cost < c.cost := by
  have hwrites : (newlyWritten c.server l.session).length ≤ 18 := due_writes h hdue hlink
  have hstep : dueStep cfg c.link le = some l := by
    unfold dueStep
    rw [if_pos hdue,hlink]
  have hlt : remaining l < remaining c.link := due_descends h.serving h.decodes h.position hstep
  have hcost : (c.linked l).cost = 40*remaining l+
      2*(c.toDevice++newlyWritten c.server l.session).length+c.buffered.length := rfl
  rw [hcost,List.length_append]
  unfold Conversation.cost
  omega

theorem arrives_costs {n : ℕ} (hn : 0 < n) (hle : n ≤ c.toDevice.length) : Conversation.cost { c with
      buffered := c.buffered++c.toDevice.take n, toDevice := c.toDevice.drop n } < c.cost := by
  have hlink : Conversation.link { c with
      buffered := c.buffered++c.toDevice.take n, toDevice := c.toDevice.drop n } = c.link := rfl
  simp only [Conversation.cost,hlink,List.length_append,List.length_take,List.length_drop]
  omega

theorem talking_keeps (h : Talking cfg res id rank c) (hstep : Converses cfg c e c') :
    ∃ rank', Talking cfg res id rank' c' ∧ (e.due = true → rank' < rank) := by
  obtain ⟨peer,handled,todo,hremote,hres,hsaid,rfl,hattached⟩ := h.rest
  cases hstep with
  | link hlink hfit hdue =>
      obtain ⟨more,later,rfl,hattached'⟩ := hattached.step hfit hlink
      refine ⟨_,⟨peer,handled++more,later,hremote,hres,?_,rfl,?_⟩,
        fun he => link_costs hattached hlink (hdue he)⟩
      · rw [hsaid,List.append_assoc]
      · rw [List.append_assoc] at hattached'
        exact hattached'
  | @arrives n hn hle =>
      refine ⟨_,⟨peer,handled,todo,hremote,hres,hsaid,rfl,?_⟩,fun _ => arrives_costs hn hle⟩
      dsimp only
      rw [List.append_assoc,List.take_append_drop]
      exact hattached
  | reads hr _ =>
      rw [hremote] at hr
      cases hr
  | hears hr hhear =>
      obtain rfl := Remote.talking.inj (hremote.symm.trans hr)
      obtain ⟨hattached',hsaid',hres',hlt⟩ := hattached.hear hhear
      refine ⟨_,⟨_,handled,todo,rfl,hres'.trans hres,hsaid'.trans hsaid,rfl,hattached'⟩,fun _ => ?_⟩
      unfold Conversation.cost Conversation.link
      dsimp only
      omega
  | speaks hr hsay =>
      obtain rfl := Remote.talking.inj (hremote.symm.trans hr)
      obtain ⟨hattached',hsaid',hres'⟩ := hattached.say hsay
      refine ⟨_,⟨_,handled,_,rfl,hres'.trans hres,?_,rfl,hattached'⟩,fun he => by cases he⟩
      rw [hsaid',hsaid,List.append_assoc]

theorem after_waits {p : DeviceProgram DeviceResult} (h : p.Waits) : Remote.after p = .greeting p := by
  cases p with
  | done _ => cases h
  | _ => rfl

/-- A last party that reads can read what is on its way. -/
theorem reads_alone {n : ℕ} {r : Except JsError Bytes} {a b : Bytes} {u : DeviceHistory}
    (h : Weave a b (Item.read n r::u) ([] : History)) : n ≤ a.length := by
  generalize ht : Item.read n r::u = t at h
  generalize hs : ([] : History) = s at h
  cases h with
  | done => cases ht
  | first hi _ =>
      obtain ⟨rfl,-⟩ := List.cons.inj ht
      cases hi with
      | read hr => simp [← hr]
  | second _ _ => cases hs

/-- The end of the greeting is on its way, and it is read to the end. -/
theorem greeted_reads {n : ℕ} {k : Except JsError Bytes → DeviceProgram DeviceResult}
    (h : Greeted cfg res id rank c) (hr : c.remote = .greeting (.read n k))
    (hn : n ≤ c.buffered.length) : ∃ rank', rank' < rank ∧ Open cfg res id rank' { c with
      remote := .after (k (.ok (c.buffered.take n))).burst.2, buffered := c.buffered.drop n
      toServer := c.toServer++sent (k (.ok (c.buffered.take n))).burst.1 } := by
  obtain ⟨p,u,due,extra,hremote,hdev,-,hweave,hbytes,rfl,hattached⟩ := h.rest
  obtain rfl := Remote.greeting.inj (hremote.symm.trans hr)
  have hdue : n ≤ due.length := by
    cases hdev with
    | read v _ => exact reads_alone hweave.swap
  have htake : c.buffered.take n = due.take n := by
    have hfront := congrArg (List.take n) hbytes
    rwa [List.take_append_of_le_length hn,List.take_append_of_le_length hdue] at hfront
  have hdrop : c.buffered.drop n++c.toDevice = due.drop n++extra := by
    have hback := congrArg (List.drop n) hbytes
    rwa [List.drop_append_of_le_length hn,List.drop_append_of_le_length hdue] at hback
  have hfront : Weave (([] : Bytes)++[]) (due++[]) ([] : History) u := by simpa using hweave
  obtain ⟨u',hdev',hwait',hweave',hlt⟩ := device_turns hdev hdue hfront
  rw [htake]
  generalize (k (.ok (due.take n))).burst = p at hdev' hwait' hweave' hlt
  obtain ⟨sends,p⟩ := p
  have hsent : sent sends = [] := hweave'.finished
  rw [hsent,List.append_nil] at hweave' ⊢
  dsimp only at hdev' hwait' hlt ⊢
  have hbuffered : (c.buffered.drop n).length ≤ c.buffered.length := by
    rw [List.length_drop]
    omega
  rcases hwait' with hwait' | rfl
  · rw [after_waits hwait']
    refine ⟨_,?_,.greeted ⟨p,u',due.drop n,extra,rfl,hdev',hwait',?_,hdrop,rfl,hattached⟩⟩
    · unfold Conversation.cost Conversation.link
      dsimp only
      omega
    · simpa using hweave'
  · obtain ⟨rfl,-⟩ := hdev'.ended rfl
    have hnone : due.drop n = [] := by simpa using hweave'.swap.finished
    rw [hnone,List.nil_append] at hdrop
    refine ⟨_,?_,.talking ⟨.greeted res,[],[],rfl,rfl,rfl,rfl,hdrop ▸ hattached⟩⟩
    unfold Conversation.cost Conversation.link
    dsimp only
    omega

theorem open_keeps (h : Open cfg res id rank c) (hstep : Converses cfg c e c') :
    ∃ rank', Open cfg res id rank' c' ∧ (e.due = true → rank' < rank) := by
  cases h with
  | talking h =>
      obtain ⟨rank',h',hlt⟩ := talking_keeps h hstep
      exact ⟨rank',.talking h',hlt⟩
  | greeted h =>
      cases hstep with
      | reads hr hn =>
          obtain ⟨rank',hlt,h'⟩ := greeted_reads h hr hn
          exact ⟨rank',h',fun _ => hlt⟩
      | link hlink hfit hdue =>
          obtain ⟨p,u,due,extra,hremote,hdev,hwait,hweave,hbytes,rfl,hattached⟩ := h.rest
          obtain ⟨more,later,hnil,hattached'⟩ := hattached.step hfit hlink
          obtain ⟨rfl,rfl⟩ := List.append_eq_nil_iff.mp hnil.symm
          refine ⟨_,.greeted ⟨p,u,due,_,hremote,hdev,hwait,hweave,?_,rfl,hattached'⟩,fun he => ?_⟩
          · rw [← List.append_assoc,← hbytes,List.append_assoc]
            rfl
          · have hcost := link_costs hattached hlink (hdue he)
            omega
      | @arrives n hn hle =>
          obtain ⟨p,u,due,extra,hremote,hdev,hwait,hweave,hbytes,rfl,hattached⟩ := h.rest
          refine ⟨_,.greeted ⟨p,u,due,extra,hremote,hdev,hwait,hweave,?_,rfl,hattached⟩,fun _ => ?_⟩
          · dsimp only
            rw [List.append_assoc,List.take_append_drop]
            exact hbytes
          · have hcost := arrives_costs hn hle
            omega
      | hears hr _ =>
          obtain ⟨p,-,-,-,hremote,-⟩ := h.rest
          cases hremote.symm.trans hr
      | speaks hr _ =>
          obtain ⟨p,-,-,-,hremote,-⟩ := h.rest
          cases hremote.symm.trans hr

/-- Nothing is on its way: all that was said has been heard, on either side. -/
structure CaughtUp (d : Device) (c : Conversation) (peer : Peer) : Prop where
  talking : c.remote = .talking peer
  toServer : c.toServer = []
  toDevice : c.toDevice = []
  buffered : c.buffered = []
  unread : unread c.server = []
  connected : c.server.phase = .connected
  coreId : c.server.coreId = some (toHex d.id)
  key : c.server.aesKey = peer.result.aesKey
  ivIn : c.server.ivIn = peer.ivSend
  ivOut : c.server.ivOut = peer.ivReceive
  told : news c.server.trace = tidings peer.said
  heard : peer.heard = plains c.server.trace
  answered : ((pongs peer.said).map Except.ok).Sublist (peer.heard.map decode)

theorem due_of_link {le : LinkEvent} {l : Link} (h : dueStep cfg c.link le = some l) :
    ∃ e c', dueTurn cfg svc c e = some c' := by
  unfold dueStep at h
  split_ifs at h with hdue
  cases le with
  | deliver n =>
      have hn : 0 < n := of_decide_eq_true hdue
      dsimp only [linkStep] at h
      split_ifs at h with hle
      have hle : n ≤ c.toServer.length := hle
      refine ⟨.toServer n,Option.ne_none_iff_exists'.mp ?_⟩
      simp [dueTurn,ConversationEvent.due,conversationStep,hn,hle]
  | session e =>
      dsimp only [linkStep] at h
      split_ifs at h
      obtain ⟨s,hs,-⟩ := Option.map_eq_some_iff.mp h
      have hs : step cfg c.server e = some s := hs
      cases e with
      | resume => exact ⟨.server .resume,c.moved s,by simp only [dueTurn,ConversationEvent.due,
          conversationStep,ServerTurn.event,hs,↓reduceIte,Option.map_some]⟩
      | loop => exact ⟨.server .loop,c.moved s,by simp only [dueTurn,ConversationEvent.due,
          conversationStep,ServerTurn.event,hs,↓reduceIte,Option.map_some]⟩
      | _ => cases hdue

theorem due_toDevice (h : c.toDevice ≠ []) : ∃ e c', dueTurn cfg svc c e = some c' := by
  have hpos := List.length_pos_iff.mpr h
  refine ⟨.toDevice c.toDevice.length,Option.ne_none_iff_exists'.mp ?_⟩
  simp [dueTurn,ConversationEvent.due,conversationStep,hpos]

theorem talking_progresses {d : Device} (hid : id = toHex d.id) (h : Talking cfg res id rank c) :
    (∃ peer, CaughtUp d c peer) ∨ ∃ e c', dueTurn cfg svc c e = some c' := by
  obtain ⟨peer,handled,todo,hremote,-,hsaid,-,hattached⟩ := h.rest
  by_cases hset : Settled cfg c.link
  · obtain ⟨rfl,hwire,hunread,hiv⟩ := settled_done hattached.serving hattached.position hset
    by_cases hdevice : c.toDevice = []
    · rw [hdevice,List.append_nil] at hattached
      by_cases hbuffered : c.buffered = []
      · rw [hbuffered] at hattached
        obtain ⟨hheard,hivOut⟩ := hattached.spoken.silent
        rw [List.append_nil] at hsaid
        have hanswered := hattached.answered
        rw [hheard] at hanswered
        exact .inl ⟨peer,hremote,hwire,hdevice,hbuffered,hunread,hattached.serving.phase,
          hid ▸ hattached.coreId,hattached.key,hiv,hivOut,hsaid ▸ hattached.told,hheard.symm,
          hsaid ▸ hanswered⟩
      · obtain ⟨peer',rest,hhear⟩ := hattached.spoken.hears hbuffered
        refine .inr ⟨.device,{ c with remote := .talking peer', buffered := rest },?_⟩
        simp only [dueTurn,ConversationEvent.due,conversationStep,Conversation.deviceTurn,hremote,hhear,
          ↓reduceIte,Option.map_some]
    · exact .inr (due_toDevice hdevice)
  · obtain ⟨le,hle⟩ := not_forall.mp hset
    obtain ⟨l,hl⟩ := Option.ne_none_iff_exists'.mp hle
    exact .inr (due_of_link hl)

theorem greeted_progresses (h : Greeted cfg res id rank c) : ∃ e c', dueTurn cfg svc c e = some c' := by
  obtain ⟨p,u,due,extra,hremote,hdev,hwait,hweave,hbytes,-,-⟩ := h.rest
  by_cases hdevice : c.toDevice = []
  · rw [hdevice,List.append_nil] at hbytes
    cases p with
    | read n k =>
        have hle : n ≤ due.length := by
          cases hdev with
          | read v _ => exact reads_alone hweave.swap
        have hn : n ≤ c.buffered.length := by
          rw [hbytes,List.length_append]
          omega
        refine ⟨.device,Option.ne_none_iff_exists'.mp ?_⟩
        simp [dueTurn,ConversationEvent.due,conversationStep,Conversation.deviceTurn,hremote,hn]
    | call c _ => exact c.elim
    | note x _ => exact x.elim
    | done _ => cases hwait
    | fail _ => cases hwait
    | write _ _ => cases hwait
  · exact due_toDevice hdevice

end Opened

end SparkProtocol.Sessions
