import Coap.Proofs.Client
import Coap.Proofs.Server
import Coap.Proofs.Writing

/-!
Requests over an unreliable network. Every state that a run reaches is sound: the client's part
by what the server may have sent, the server's part by what the client may have sent. From that,
a request is answered at most once, its callback is called at most once, and what it is called
with is the answer.
-/
namespace Coap

theorem Code.truncate_of_method? {c : Code} (h : c.method?.isSome) : c.truncate = c := by
  unfold method? at h
  repeat' split at h
  all_goals first
    | rename_i hc
      rw [hc]
      rfl
    | cases h

theorem Code.kind_truncate_of_empty {c : Code} (h : c.kind = .empty) :
    c.truncate.kind = .empty := by
  unfold kind at h
  split at h
  · cases h
  · rename_i hcategory
    split at h
    · rename_i hdetail
      have hc : c = ⟨0, 0⟩ := by
        cases c
        simp_all
      rw [hc]
      rfl
    · cases h

theorem Code.kind_truncate_of_range {c : Code} (h : 1 ≤ c.category.toNat ∧ c.category.toNat ≤ 7) :
    c.truncate.kind = .response := by
  have hcategory : c.truncate.category ≠ 0 := by
    intro hzero
    have hmod := congrArg UInt8.toNat hzero
    simp only [truncate, UInt8.toNat_ofNat'] at hmod
    have hsmall : c.category.toNat % 8 = c.category.toNat := Nat.mod_eq_of_lt (by omega)
    rw [hsmall] at hmod
    simp at hmod
    omega
  rw [kind, if_pos hcategory]

theorem Call.Reads.id_eq {q : Call κ} {m : Message} (h : q.Reads m) : q.outcome = .ok m.id := by
  obtain ⟨id, b, hid, hwrite, hread⟩ := h
  obtain ⟨-, -, hsame, -⟩ := Message.header_of_write hwrite hread
  rw [hid, hsame]

namespace Network

open Session

variable {κ ω κ' ω' : Type}

theorem mem_arrive {datagram : Bytes} {now : Millis} {arrivals : List (Message × Millis)}
    {a : Message × Millis} (ha : a ∈ arrivals) : a ∈ arrive datagram now arrivals := by
  unfold arrive
  split
  · exact ha
  · split
    · exact List.mem_cons_of_mem _ ha
    · exact ha

theorem time_le_of_mem_arrive {datagram : Bytes} {now : Millis}
    {arrivals : List (Message × Millis)} (htimes : ∀ a ∈ arrivals, a.2 ≤ now)
    {a : Message × Millis} (ha : a ∈ arrive datagram now arrivals) : a.2 ≤ now := by
  unfold arrive at ha
  split at ha
  · exact htimes a ha
  · split at ha
    · rcases List.mem_cons.1 ha with rfl | ha
      · exact Nat.le_refl now
      · exact htimes a ha
    · exact htimes a ha

/-- A request that arrives has arrived. -/
theorem exists_mem_arrive {datagram : Bytes} (now : Millis) (arrivals : List (Message × Millis))
    {m : Message} (hread : Message.read datagram = .ok m) (hkind : m.kind = .request) :
    ∃ t, (m, t) ∈ arrive datagram now arrivals := by
  unfold arrive
  rw [hread]
  by_cases hfirst : m.kind = .request ∧ ∀ a ∈ arrivals, a.1 ≠ m
  · refine ⟨now, ?_⟩
    simp only [if_pos hfirst]
    exact List.mem_cons_self
  · obtain ⟨t, ht⟩ : ∃ t, (m, t) ∈ arrivals := by simpa [hkind] using hfirst
    refine ⟨t, ?_⟩
    simp only [if_neg hfirst]
    exact ht

/-- What is true of every state that a run reaches. -/
structure Sound [DecidableEq κ] (n : Network κ ω κ' ω') : Prop where
  differ : CallsDiffer n.calls
  client : ClientSound n.calls
    (fun r => ∃ d, .sent d ∈ n.server.history ∧ Message.read d = .ok r) n.client
  server : ServerSound n.calls n.arrivals n.server
  times : ∀ a ∈ n.arrivals, a.2 ≤ n.time

theorem CallsDiffer.cons {calls : List (Call κ)} (hd : CallsDiffer calls) {q : Call κ}
    (htype : q.request.type = .confirmable) (hmethod : q.request.code.method?.isSome)
    (htoken : ∀ p ∈ calls, p.request.token ≠ q.request.token)
    (hcallback : ∀ p ∈ calls, ∀ c, p.callback = some c → q.callback ≠ some c) :
    CallsDiffer (q :: calls) := by
  constructor
  · intro p hp
    rcases List.mem_cons.1 hp with rfl | hold
    · exact ⟨htype, hmethod⟩
    · exact hd.request p hold
  · intro p hp p' hp' heq
    rcases List.mem_cons.1 hp with rfl | hold <;> rcases List.mem_cons.1 hp' with rfl | hold'
    · rfl
    · exact absurd heq.symm (htoken p' hold')
    · exact absurd heq (htoken p hold)
    · exact hd.token p hold p' hold' heq
  · intro p hp p' hp' c hc hc'
    rcases List.mem_cons.1 hp with rfl | hold <;> rcases List.mem_cons.1 hp' with rfl | hold'
    · rfl
    · exact absurd hc (hcallback p' hold' c hc')
    · exact absurd hc' (hcallback p hold c hc)
    · exact hd.callback p hold p' hold' c hc hc'

/-- What the server reads of what the client sends. -/
theorem IsOutgoing.read {calls : List (Call κ)} (hd : CallsDiffer calls) {m m' : Message}
    {d : Bytes} (hm : IsOutgoing calls m) (hwrite : m.write = .ok d)
    (hread : Message.read d = .ok m') :
    m'.type = .confirmable ∧
      (m'.kind = .empty ∨ m'.code.method?.isSome ∧ ∃ q ∈ calls, q.Reads m') := by
  obtain ⟨htype, hcode, -, -⟩ := Message.header_of_write hwrite hread
  rcases hm with ⟨q, hq, id, hid, rfl⟩ | ⟨id, rfl⟩
  · obtain ⟨hconfirmable, hmethod⟩ := hd.request q hq
    refine ⟨htype.trans hconfirmable, .inr ⟨?_, q, hq, id, d, hid, hwrite, hread⟩⟩
    rw [hcode, Code.truncate_of_method? hmethod]
    exact hmethod
  · refine ⟨htype, .inl ?_⟩
    show m'.code.kind = .empty
    rw [hcode]
    rfl

/-- What the client reads of what the server sends. -/
theorem IsReply.read {answers : List Answer}
    (hrange : ∀ a ∈ answers, 1 ≤ a.reply.code.category.toNat ∧ a.reply.code.category.toNat ≤ 7)
    {m m' : Message} {d : Bytes} (hm : IsReply answers m) (hwrite : m.write = .ok d)
    (hread : Message.read d = .ok m') :
    m'.type ≠ .confirmable ∧ (m'.kind = .empty ∨ m'.kind = .response ∧
      ∃ a ∈ answers, m = Endpoint.replyTo a.request a.reply ∧ m'.token = a.request.token) := by
  obtain ⟨htype, hcode, -, htoken⟩ := Message.header_of_write hwrite hread
  rcases hm with ⟨hempty, hconfirmable⟩ | ⟨a, ha, rfl⟩
  · refine ⟨by rw [htype]; exact hconfirmable, .inl ?_⟩
    show m'.code.kind = .empty
    rw [hcode]
    exact Code.kind_truncate_of_empty hempty
  · refine ⟨by rw [htype]; exact nofun, .inr ⟨?_, a, ha, rfl, htoken⟩⟩
    show m'.code.kind = .response
    rw [hcode]
    exact Code.kind_truncate_of_range (hrange a ha)

theorem reading_eq (h : Host ω') (n : Network κ ω κ' ω') :
    n.reading h = (h.recording.now n.server.world).1.toOption := by
  rw [reading, Host.now_recording]

theorem reading_of_now {h : Host ω'} {n : Network κ ω κ' ω'} {now : Millis}
    (hnow : (h.recording.now n.server.world).1 = .ok now) : n.reading h = some now := by
  rw [reading_eq, hnow]
  rfl

theorem arrivals_serverReceive {h : Host ω'} {n : Network κ ω κ' ω'} {now : Millis}
    (hreading : n.reading h = some now) (datagram : Bytes) :
    (n.serverReceive h datagram).arrivals = arrive datagram now n.arrivals ∧
      (n.serverReceive h datagram).time = now := by
  constructor
  · simp only [serverReceive, hreading]
  · simp only [serverReceive, hreading, Option.getD_some]

theorem arrivals_serverReceive_of_none {h : Host ω'} {n : Network κ ω κ' ω'}
    (hreading : n.reading h = none) (datagram : Bytes) :
    (n.serverReceive h datagram).arrivals = n.arrivals ∧
      (n.serverReceive h datagram).time = n.time := by
  constructor
  · simp only [serverReceive, hreading]
  · simp only [serverReceive, hreading, Option.getD_none]

section
variable [DecidableEq κ] {client : Host ω} {server : Host ω'} {n n' : Network κ ω κ' ω'}

theorem Sound.start {clientConfig serverConfig : Config} {w w₁ : ω} {w' : ω'}
    {w₁' : ω' × List Answer} {s : Session κ} {s' : Session κ'}
    (hclient : Session.create client clientConfig w = (.ok s, w₁))
    (hserver : Session.create server.recording serverConfig (w', []) = (.ok s', w₁'))
    (hkeepalive : serverConfig.keepalive = none) :
    Sound { client := ⟨s, w₁, []⟩, server := ⟨s', w₁', []⟩ : Network κ ω κ' ω' } := by
  obtain ⟨-, -, lastId, hendpoint⟩ := Session.create_ok (client.keeps_const ()) hclient
  obtain ⟨hanswers, hconfig', lastId', hendpoint'⟩ :=
    Session.create_ok server.recording_keeps hserver
  have hnone : w₁'.2 = [] := hanswers
  have hdiffer : CallsDiffer ([] : List (Call κ)) :=
    ⟨List.forall_mem_nil _, List.forall_mem_nil _, List.forall_mem_nil _⟩
  refine ⟨hdiffer, ?_, ?_, List.forall_mem_nil _⟩
  · refine ⟨?_, ?_, ?_, fun _ hd => absurd hd List.not_mem_nil,
      fun _ _ hr => absurd hr List.not_mem_nil, fun _ => Nat.zero_le 1⟩
    · show s.endpoint.exchanges.observers = ∅
      rw [hendpoint]
      rfl
    · intro id p hp
      rw [hendpoint] at hp
      cases Std.ExtTreeMap.getElem?_empty.symm.trans hp
    · intro id r hr
      rw [hendpoint] at hr
      cases Std.ExtTreeMap.getElem?_empty.symm.trans hr
  · refine ⟨hconfig' ▸ hkeepalive, ?_, ?_, fun _ hd => absurd hd List.not_mem_nil, ?_, ?_⟩
    · show s'.endpoint.dedup.lifetime = s'.config.exchangeLifetime
      rw [hendpoint', hconfig']
      rfl
    · intro id
      show s'.endpoint.exchanges.retries[id]? = none
      rw [hendpoint']
      exact Std.ExtTreeMap.getElem?_empty
    · show ∀ a ∈ w₁'.2, _
      rw [hnone]
      exact List.forall_mem_nil _
    · show w₁'.2.Pairwise _
      rw [hnone]
      exact .nil

/-- The server's part holds wherever the history of what it sent has grown. -/
theorem Sound.of_server (hn : Sound n) (hcalls : n'.calls = n.calls)
    (hclient : n'.client = n.client)
    (hhistory : ∀ e ∈ n.server.history, e ∈ n'.server.history)
    (hserver : ServerSound n'.calls n'.arrivals n'.server)
    (htimes : ∀ a ∈ n'.arrivals, a.2 ≤ n'.time) : Sound n' := by
  refine ⟨hcalls ▸ hn.differ, ?_, hserver, htimes⟩
  rw [hcalls, hclient]
  exact hn.client.mono (fun _ => id) fun r ⟨d, hd, hread⟩ => ⟨d, hhistory _ hd, hread⟩

theorem Sound.time_le (hn : Sound n)
    (htime : ∀ now, n.reading server = some now → n.time ≤ now) :
    ∀ a ∈ n.arrivals, a.2 ≤ (n.reading server).getD n.time := by
  intro a ha
  have hold := hn.times a ha
  cases hreading : n.reading server with
  | none => exact hold
  | some now => exact Nat.le_trans hold (htime now hreading)

/-- **Each step keeps the state sound.** -/
theorem Sound.step (hreplies : server.RepliesInRange) (hn : Sound n)
    (hstep : Step client server n n') : Sound n' := by
  cases hstep with
  | call m callback htype hmethod htoken hcallback =>
    refine ⟨hn.differ.cons htype hmethod htoken hcallback,
      hn.client.call client m callback hcallback, ?_, hn.times⟩
    exact hn.server.mono (fun q hq => List.mem_cons_of_mem _ hq) fun _ => id
  | clientReceive datagram hsent =>
    obtain ⟨m, hm, hwrite⟩ := hn.server.sent datagram hsent
    refine ⟨hn.differ, hn.client.receive hn.differ client ?_, hn.server, hn.times⟩
    intro m' hread
    obtain ⟨htype, hkind⟩ := hm.read (fun a ha => (hn.server.answered a ha).range) hwrite hread
    refine ⟨?_, htype, datagram, hsent, hread⟩
    rcases hkind with hkind | ⟨hkind, -⟩ <;> rw [hkind] <;> exact nofun
  | clientTick => exact ⟨hn.differ, hn.client.tick client, hn.server, hn.times⟩
  | serverReceive datagram hsent htime =>
    obtain ⟨m, hm, hwrite⟩ := hn.client.sent datagram hsent
    have htimes := hn.time_le htime
    have hmono : ∀ a ∈ n.arrivals, a ∈ (n.serverReceive server datagram).arrivals := by
      intro a ha
      cases hreading : n.reading server with
      | none => rwa [(arrivals_serverReceive_of_none hreading datagram).1]
      | some now =>
        rw [(arrivals_serverReceive hreading datagram).1]
        exact mem_arrive ha
    refine hn.of_server rfl rfl
      (fun e => Action.receive_history server.recording_keeps datagram) ?_ ?_
    · refine (hn.server.mono (fun _ => id) hmono).receive hreplies
        (fun m' => hm.read hn.differ hwrite) ?_
      intro now m' hnow hread hkind
      have hreading := reading_of_now hnow
      rw [hreading] at htimes
      rw [(arrivals_serverReceive hreading datagram).1]
      obtain ⟨t, ht⟩ := exists_mem_arrive now n.arrivals hread hkind
      exact ⟨t, ht, time_le_of_mem_arrive htimes ht⟩
    · intro a ha
      cases hreading : n.reading server with
      | none =>
        obtain ⟨harrivals, htime⟩ := arrivals_serverReceive_of_none hreading datagram
        rw [harrivals] at ha
        rw [htime]
        exact hn.times a ha
      | some now =>
        obtain ⟨harrivals, htime⟩ := arrivals_serverReceive hreading datagram
        rw [harrivals] at ha
        rw [hreading] at htimes
        rw [htime]
        exact time_le_of_mem_arrive htimes ha
  | serverTick htime hlifetime =>
    refine hn.of_server rfl rfl (fun e => Action.tick_history server.recording_keeps) ?_
      (hn.time_le htime)
    exact hn.server.tick fun now hnow => hlifetime now (reading_of_now hnow)

theorem Reachable.sound (hreplies : server.RepliesInRange) (hn : Reachable client server n) :
    Sound n := by
  induction hn with
  | start hclient hserver hkeepalive => exact .start hclient hserver hkeepalive
  | step _ hstep ih => exact ih.step hreplies hstep

/-- What is answered under the token of a call is its request. -/
theorem Sound.mem_answersTo_iff (hn : Sound n) {q : Call κ} (hq : q ∈ n.calls) {a : Answer}
    (ha : a ∈ n.answers) : a ∈ n.answersTo q ↔ q.Reads a.request := by
  constructor
  · intro hmem
    obtain ⟨q', hq', id, b, hid, hwrite, hread⟩ := (hn.server.answered a ha).reads
    obtain ⟨-, -, -, htoken'⟩ := Message.header_of_write hwrite hread
    have htoken := of_decide_eq_true (List.mem_filter.1 hmem).2
    obtain rfl := hn.differ.token q' hq' q hq (htoken'.symm.trans htoken)
    exact ⟨id, b, hid, hwrite, hread⟩
  · rintro ⟨id, b, -, hwrite, hread⟩
    obtain ⟨-, -, -, htoken⟩ := Message.header_of_write hwrite hread
    exact List.mem_filter.2 ⟨ha, decide_eq_true htoken⟩

/-- **A request is answered at most once, and its callback called at most once, with the answer.**
The client's requests differ in their tokens, the server's replies are responses, and the server
forgets no id before the lifetime of a request is over; the network may do with datagrams
whatever it likes, except make them up. -/
theorem answered_and_delivered_at_most_once (hreplies : server.RepliesInRange)
    (hn : Reachable client server n) {q : Call κ} (hq : q ∈ n.calls) :
    (n.answersTo q).length ≤ 1 ∧ (∀ a ∈ n.answers, a ∈ n.answersTo q ↔ q.Reads a.request) ∧
      ∀ c, q.callback = some c → (n.deliveries c).length ≤ 1 ∧
        ∀ r ∈ n.deliveries c, ∃ a ∈ n.answersTo q, ∃ id b, q.outcome = .ok id ∧
          { a.reply with type := .acknowledgement, id, token := q.request.token }.write = .ok b ∧
          Message.read b = .ok r := by
  have hsound := hn.sound hreplies
  have hreads : ∀ a ∈ n.answersTo q, q.Reads a.request :=
    fun a ha => (hsound.mem_answersTo_iff hq (List.mem_of_mem_filter ha)).1 ha
  refine ⟨?_, fun a => hsound.mem_answersTo_iff hq, ?_⟩
  · have hids : (n.answersTo q).Pairwise fun a b => a.request.id ≠ b.request.id :=
      hsound.server.ids.sublist List.filter_sublist
    cases hanswers : n.answersTo q with
    | nil => exact Nat.zero_le 1
    | cons a rest =>
      rw [hanswers] at hids hreads
      cases rest with
      | nil => exact Nat.le_refl 1
      | cons b rest =>
        have ha := (hreads a List.mem_cons_self).id_eq
        have hb := (hreads b (List.mem_cons_of_mem _ List.mem_cons_self)).id_eq
        have hne := (List.pairwise_cons.1 hids).1 b List.mem_cons_self
        exact absurd (Except.ok.inj (ha.symm.trans hb)) hne
  · intro c hc
    refine ⟨hsound.client.once c, ?_⟩
    intro r hr
    obtain ⟨hkind, ⟨d, hd, hread⟩, q', hq', id, hid, hc', htoken⟩ :=
      hsound.client.delivered c r (mem_deliveries.1 hr)
    obtain rfl := hsound.differ.callback q' hq' q hq c hc' hc
    obtain ⟨m, hm, hwrite⟩ := hsound.server.sent d hd
    obtain ⟨-, hempty | ⟨-, a, ha, rfl, hatoken⟩⟩ :=
      hm.read (fun a ha => (hsound.server.answered a ha).range) hwrite hread
    · rw [hkind] at hempty
      cases hempty
    · have hsame : a.request.token = q'.request.token := hatoken.symm.trans htoken.symm
      have hanswer : a ∈ n.answersTo q' := List.mem_filter.2 ⟨ha, decide_eq_true hsame⟩
      have hid' := (hreads a hanswer).id_eq
      refine ⟨a, hanswer, a.request.id, d, hid', ?_, hread⟩
      rw [← hsame]
      exact hwrite

end

/-- Answers every request with 2.05 and a short text. -/
def sampleHost : Host Unit where
  tickUnit := .millisecond
  readClock w := (some 1000, w)
  openTransport w := (.ok (), w)
  closeTransport w := (.ok (), w)
  transmit _ w := (.ok (), w)
  collect _ w := (.ok none, w)
  backlog _ := 0
  application _ _ w := (.ok { code := ⟨2, 5⟩, payload := [104, 105] }, w)
  credentialsRequired := false
  authenticate _ _ w := (true, w)

def sampleSession : Session Unit where
  config := {}
  endpoint := .new {} (TokenGenerator.new {} 1000).nextId.1
  tokens := (TokenGenerator.new {} 1000).nextId.2
  pingDue := Millis.add 1000 0

def sampleRequest : Message := { code := ⟨0, 1⟩, token := ⟨[7], Nat.le_add_right 1 7⟩ }

def sampleCalled : Network Unit Unit Unit Unit :=
  call sampleHost sampleRequest (some ())
    { client := ⟨sampleSession, (), []⟩, server := ⟨sampleSession, ((), []), []⟩ }

/-- The request arrives twice. -/
def sampleAnswered : Network Unit Unit Unit Unit :=
  (sampleCalled.serverReceive sampleHost [65, 1, 175, 145, 7]).serverReceive sampleHost
    [65, 1, 175, 145, 7]

/-- The answer arrives twice. -/
def sampleDelivered : Network Unit Unit Unit Unit :=
  (sampleAnswered.clientReceive sampleHost [97, 69, 175, 145, 7, 255, 104, 105]).clientReceive
    sampleHost [97, 69, 175, 145, 7, 255, 104, 105]

theorem sampleHost_repliesInRange : sampleHost.RepliesInRange := by
  intro method m w reply hreply
  obtain rfl := Except.ok.inj hreply
  decide

theorem sampleDelivered_reachable : Reachable sampleHost sampleHost sampleDelivered := by
  have hnow : sampleHost.now () = (.ok 1000, ()) := by decide +kernel
  have hnow' : sampleHost.recording.now ((), []) = (.ok 1000, ((), [])) := by decide +kernel
  have hstart : Reachable sampleHost sampleHost
      { client := ⟨sampleSession, (), []⟩, server := ⟨sampleSession, ((), []), []⟩ } :=
    .start (Session.create_of_now hnow rfl) (Session.create_of_now hnow' rfl) rfl
  have hcalled : Reachable sampleHost sampleHost sampleCalled :=
    hstart.step (.call sampleRequest (some ()) rfl rfl (List.forall_mem_nil _)
      (List.forall_mem_nil _))
  have hanswered : Reachable sampleHost sampleHost sampleAnswered := by
    refine (hcalled.step (.serverReceive _ ?_ ?_)).step (.serverReceive _ ?_ ?_)
    · decide +kernel
    · exact fun _ _ => Nat.zero_le _
    · decide +kernel
    · decide +kernel
  refine (hanswered.step (.clientReceive _ ?_)).step (.clientReceive _ ?_)
  · decide +kernel
  · decide +kernel

/-- Of two arrivals on either side the first one counts. -/
theorem answered_and_delivered_at_most_once_sample :
    ∃ q ∈ sampleDelivered.calls, q.callback = some () ∧ sampleHost.RepliesInRange ∧
      Reachable sampleHost sampleHost sampleDelivered ∧
      (sampleDelivered.answersTo q).length = 1 ∧ (sampleDelivered.deliveries ()).length = 1 ∧
      ∀ r ∈ sampleDelivered.deliveries (), ∃ a ∈ sampleDelivered.answersTo q, ∃ id b,
        q.outcome = .ok id ∧
        { a.reply with type := .acknowledgement, id, token := q.request.token }.write = .ok b ∧
        Message.read b = .ok r := by
  have houtcome : (Action.sendRequest sampleHost sampleRequest (some ())
      ⟨sampleSession, (), []⟩).1 = .ok 44945 := by decide +kernel
  have hq : ⟨sampleRequest, some (), .ok 44945⟩ ∈ sampleDelivered.calls := by
    rw [← houtcome]
    exact List.mem_cons_self
  obtain ⟨-, -, hdelivered⟩ := answered_and_delivered_at_most_once sampleHost_repliesInRange
    sampleDelivered_reachable hq
  refine ⟨_, hq, rfl, sampleHost_repliesInRange, sampleDelivered_reachable, ?_, ?_, ?_⟩
  · decide +kernel
  · decide +kernel
  · exact (hdelivered () rfl).2

end Network
end Coap
