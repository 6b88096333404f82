/-
# `Entmoot.Reading` — what the loaders accept, and what they keep of the rest

The three state files are loops over entries without a count: the offline queue
(`loadQueue`), the subscriptions (`loadSubs`) and the retained snapshot
(`loadSnapshot`).  Each loop is `Entries.parse` of its reader of one entry, and
each reader undoes its writer (`readMsg_reads`, `readSub_reads`,
`readEntry_reads`).

The two session files give back what was saved and nothing else: a file that
loads is what would be saved of the value it loads as (`state_files_exact`).  The
snapshot is accepted on the same terms, but its loop inserts into the live map as
it goes, so a file that is refused has changed the map unless the entries before
its first bad one were in the map already (`refused_snapshot_iff`).
-/
import Entmoot.FileCodec
import Entmoot.Retained
import Entmoot.Lib.Entries

namespace Entmoot

open Wire (putChunk takeChunk stripPrefix splitAt? getNat putNat)
open Entries (Reads Broken parse)
open RetainedStore

/-! ## Single entries -/

theorem readChunk_ok {rest c tail : Bytes} :
    readChunk rest = .ok (c, tail) ↔ Fits c ∧ rest = putChunk c ++ tail := by
  rw [readChunk, Fits, ← Wire.takeChunk_eq_some]
  cases takeChunk rest with
  | none => simp
  | some p => simp

theorem utf8Or_eq_ok {err : String} {b : Bytes} {s : Str} :
    utf8Or err b = .ok s ↔ b = asBytes s := by
  constructor
  · intro h
    rw [utf8Or] at h
    split at h
    · next t ht =>
      cases h
      exact (asBytes_of_fromUtf8 ht).symm
    · cases h
  · rintro rfl
    exact utf8Or_asBytes err s

/-- One turn of the loop in `load_queue`. -/
def readMsg (rest : Bytes) : Except String (Msg × Bytes) := do
  let t ← readChunk rest
  let topic ← utf8Or "bad topic in offline queue" t.1
  let p ← readChunk t.2
  pure ((topic, p.1), p.2)

/-- One turn of the loop in `load_subs`. -/
def readSub (rest : Bytes) : Except String ((Str × QoS) × Bytes) := do
  let f ← readChunk rest
  let filter ← utf8Or "bad filter in subscription file" f.1
  match f.2 with
  | [] => .error "truncated subscription file"
  | b :: tail =>
    match qos b with
    | none => .error s!"bad qos byte {b.toNat}"
    | some q => .ok ((filter, q), tail)

theorem readMsg_reads : Reads queueEntry MsgFits readMsg where
  ne_nil := by
    intro m h
    exact queueEntry_ne_nil m [] (by rw [h, List.nil_append])
  iff := by
    intro bs m rest
    constructor
    · intro h
      obtain ⟨⟨topic, tail⟩, ht, h⟩ := bind_eq_ok.mp h
      obtain ⟨name, hname, h⟩ := bind_eq_ok.mp h
      obtain ⟨⟨payload, tail'⟩, hp, h⟩ := bind_eq_ok.mp h
      cases h
      obtain ⟨htopic, rfl⟩ := readChunk_ok.mp ht
      obtain ⟨hpayload, htail⟩ := readChunk_ok.mp hp
      dsimp only at hname htail
      rw [utf8Or_eq_ok] at hname
      subst hname htail
      exact ⟨⟨htopic, hpayload⟩, by rw [queueEntry, List.append_assoc]⟩
    · rintro ⟨⟨htopic, hpayload⟩, rfl⟩
      rw [queueEntry, List.append_assoc, readMsg, readChunk_putChunk _ htopic]
      simp only [bind, Except.bind, utf8Or_asBytes, readChunk_putChunk _ hpayload, pure,
        Except.pure]

theorem qos_eq_some {b : UInt8} {q : QoS} : qos b = some q ↔ b = q.toByte := by
  constructor
  · intro h
    rw [qos] at h
    split at h
    · next hb => cases h; exact hb
    split at h
    · next hb => cases h; exact hb
    split at h
    · next hb => cases h; exact hb
    · cases h
  · rintro rfl
    exact qos_toByte q

theorem readSub_reads : Reads subEntryBytes (fun e => Fits (asBytes e.1)) readSub where
  ne_nil := by
    intro e h
    exact subEntryBytes_ne_nil e [] (by rw [h, List.nil_append])
  iff := by
    intro bs e rest
    constructor
    · intro h
      obtain ⟨⟨filter, tail⟩, hf, h⟩ := bind_eq_ok.mp h
      obtain ⟨name, hname, h⟩ := bind_eq_ok.mp h
      obtain ⟨hfits, hbs⟩ := readChunk_ok.mp hf
      rw [utf8Or_eq_ok] at hname
      dsimp only at hname h
      split at h
      · cases h
      · split at h
        · cases h
        · next q hq =>
          cases h
          rw [qos_eq_some] at hq
          subst hname hq
          exact ⟨hfits, by rw [hbs, subEntryBytes, List.append_assoc]; rfl⟩
    · rintro ⟨hfits, rfl⟩
      rw [subEntryBytes, List.append_assoc, readSub, readChunk_putChunk _ hfits]
      simp only [bind, Except.bind, utf8Or_asBytes, List.cons_append, List.nil_append, qos_toByte]

/-- An entry as a snapshot can hold it. -/
def EntryFits (e : RetainedEntry) : Prop :=
  Fits (asBytes e.1) ∧ Fits e.2.1 ∧ ∃ m < 2 ^ 64, e.2.2 = fromMillis m

theorem orTruncated_ok {α : Type} {o : Option α} {a : α} : orTruncated o = .ok a ↔ o = some a := by
  cases o <;> simp [orTruncated]

theorem readEntry_reads : Reads writeEntry EntryFits readEntry where
  ne_nil := by
    intro e h
    exact writeEntry_ne_nil e [] (by rw [h, List.nil_append])
  iff := by
    intro bs e rest
    constructor
    · intro h
      obtain ⟨⟨name, tail⟩, ht, h⟩ := bind_eq_ok.mp h
      obtain ⟨⟨payload, tail'⟩, hp, h⟩ := bind_eq_ok.mp h
      obtain ⟨⟨stamp, tail''⟩, hts, h⟩ := bind_eq_ok.mp h
      obtain ⟨topic, htopic, h⟩ := bind_eq_ok.mp h
      cases h
      rw [orTruncated_ok, Wire.takeChunk_eq_some] at ht hp
      rw [orTruncated_ok, Wire.splitAt?_eq_some] at hts
      rw [utf8Or_eq_ok] at htopic
      obtain ⟨hname, rfl⟩ := ht
      obtain ⟨hpayload, htail⟩ := hp
      obtain ⟨htail', height⟩ := hts
      dsimp only at htopic htail htail' hname
      subst htopic htail htail'
      have hstamp : getNat stamp < 2 ^ 64 := by
        have hlt := Wire.getNat_lt stamp
        rwa [height] at hlt
      have hspelt : putNat 8 (getNat stamp) = stamp := by
        have hspell := Wire.putNat_getNat stamp
        rwa [height] at hspell
      refine ⟨⟨hname, hpayload, _, hstamp, rfl⟩, ?_⟩
      simp only [writeEntry, toMillis_fromMillis hstamp, hspelt, List.append_assoc]
    · rintro ⟨⟨hname, hpayload, m, hm, htime⟩, rfl⟩
      rw [readEntry_writeEntry rest hname hpayload, htime, truncMillis_fromMillis hm, ← htime]

/-! ## The loops -/

/-- The queue with one more message, the oldest dropped if it is full. -/
def pushMax (maxQueue : Nat) (queue : List Msg) (m : Msg) : List Msg :=
  (if queue.length ≥ maxQueue then queue.tail else queue) ++ [m]

theorem loadQueueLoop_parse (maxQueue : Nat) : ∀ (fuel : Nat) (rest : Bytes) (queue : List Msg),
    loadQueueLoop maxQueue fuel rest queue =
      (parse readMsg fuel rest).2.map fun _ =>
        (parse readMsg fuel rest).1.foldl (pushMax maxQueue) queue := by
  intro fuel
  induction fuel with
  | zero => exact fun _ _ => rfl
  | succ fuel ih =>
      intro rest queue
      have hturn : loadQueueLoop maxQueue (fuel + 1) rest queue =
          if rest = [] then .ok queue
          else readMsg rest >>= fun e =>
            loadQueueLoop maxQueue fuel e.2 (pushMax maxQueue queue e.1) := by
        simp only [loadQueueLoop, readMsg, bind_assoc, pure_bind, pushMax]
      rw [hturn, parse]
      split
      · rfl
      · cases readMsg rest with
        | error e => rfl
        | ok e => exact ih e.2 _

theorem loadQueueLoop_ok_iff {maxQueue : Nat} {body : Bytes} {q : List Msg} :
    loadQueueLoop maxQueue body.length body [] = .ok q ↔ ∃ all : List Msg, (∀ m ∈ all, MsgFits m) ∧
      body = all.flatMap queueEntry ∧ q = all.foldl (pushMax maxQueue) [] := by
  rw [loadQueueLoop_parse]
  constructor
  · intro h
    cases hparse : parse readMsg body.length body with
    | mk all ended =>
        rw [hparse] at h
        cases ended with
        | error e => cases h
        | ok u =>
            obtain ⟨hfits, hbody⟩ := (Entries.parse_ok_iff readMsg_reads (Nat.le_refl _)).mp hparse
            cases h
            exact ⟨all, hfits, hbody, rfl⟩
  · rintro ⟨all, hfits, rfl, rfl⟩
    rw [Entries.parse_whole readMsg_reads hfits (Nat.le_refl _)]
    rfl

theorem loadSubsLoop_parse : ∀ (fuel : Nat) (rest : Bytes) (entries : List (Str × QoS)),
    loadSubsLoop fuel rest entries =
      (parse readSub fuel rest).2.map fun _ => entries ++ (parse readSub fuel rest).1 := by
  intro fuel
  induction fuel with
  | zero =>
      intro rest entries
      exact congrArg Except.ok (List.append_nil entries).symm
  | succ fuel ih =>
      intro rest entries
      have hturn : loadSubsLoop (fuel + 1) rest entries =
          if rest = [] then .ok entries
          else readSub rest >>= fun e => loadSubsLoop fuel e.2 (entries ++ [e.1]) := by
        simp only [loadSubsLoop, readSub, bind_assoc]
        split
        · rfl
        · refine bind_congr fun f => bind_congr fun filter => ?_
          obtain ⟨_, tail⟩ := f
          cases tail with
          | nil => rfl
          | cons b tail =>
              dsimp only
              cases qos b <;> rfl
      rw [hturn, parse]
      split
      · exact congrArg Except.ok (List.append_nil entries).symm
      · cases readSub rest with
        | error e => rfl
        | ok e =>
            refine (ih e.2 _).trans ?_
            simp only [List.append_assoc, List.singleton_append]

theorem loadSubsLoop_ok_iff {body : Bytes} {entries : List (Str × QoS)} :
    loadSubsLoop body.length body [] = .ok entries ↔
      (∀ e ∈ entries, Fits (asBytes e.1)) ∧ body = entries.flatMap subEntryBytes := by
  rw [loadSubsLoop_parse, ← Entries.parse_ok_iff readSub_reads (Nat.le_refl _)]
  cases hparse : parse readSub body.length body with
  | mk es ended => cases ended <;> simp [Except.map]

theorem loadSnapshotLoop_parse : ∀ (fuel : Nat) (rest : Bytes) (s : RetainedStore) (count : Nat),
    loadSnapshotLoop fuel rest s count =
      ({ s with map := Keyed.insertAll s.map (parse readEntry fuel rest).1 },
        (parse readEntry fuel rest).2.map fun _ =>
          count + (parse readEntry fuel rest).1.length) := by
  intro fuel
  induction fuel with
  | zero => exact fun _ _ _ => rfl
  | succ fuel ih =>
      intro rest s count
      rw [loadSnapshotLoop, parse]
      split
      · rfl
      · cases readEntry rest with
        | error e => rfl
        | ok e =>
            refine (ih e.2 _ _).trans ?_
            simp only [Keyed.insertAll_cons, List.length_cons, Nat.add_assoc, Nat.add_comm 1]

/-! ## The offline queue -/

theorem foldl_pushMax {maxQueue : Nat} (hmax : 1 ≤ maxQueue) : ∀ (q queue : List Msg),
    queue.length ≤ maxQueue → q.foldl (pushMax maxQueue) queue =
      (queue ++ q).drop ((queue ++ q).length - maxQueue) := by
  intro q
  induction q with
  | nil =>
      intro queue hlen
      rw [List.append_nil, Nat.sub_eq_zero_of_le hlen, List.drop_zero]
      rfl
  | cons m q ih =>
      intro queue hlen
      have hpush : pushMax maxQueue queue m =
          (queue ++ [m]).drop ((queue ++ [m]).length - maxQueue) := by
        rw [pushMax, List.length_append, List.length_singleton]
        split
        · have hfull : queue.length + 1 - maxQueue = 1 := by omega
          rw [hfull, List.drop_one, List.tail_append_of_ne_nil]
          rintro rfl
          simp only [List.length_nil] at *
          omega
        · have hroom : queue.length + 1 - maxQueue = 0 := by omega
          rw [hroom, List.drop_zero]
      have hshort : (pushMax maxQueue queue m).length ≤ maxQueue := by
        rw [hpush, List.length_drop]
        omega
      have hjoin : pushMax maxQueue queue m ++ q =
          (queue ++ m :: q).drop ((queue ++ [m]).length - maxQueue) := by
        rw [hpush, ← List.drop_append_of_le_length (by omega), List.append_assoc,
          List.singleton_append]
      rw [List.foldl_cons, ih _ hshort, hjoin, List.length_drop, List.drop_drop]
      congr 1
      simp only [List.length_append, List.length_cons, List.length_nil]
      omega

/-- `load_queue` on a file's bytes: the magic, and then the loop. -/
theorem loadQueue_eq {d : Disk} {path : Path} {maxQueue : Nat} {data : Bytes} (hmax : 1 ≤ maxQueue)
    (hdata : d.lookup path = some data) :
    loadQueue d path maxQueue = match stripPrefix queueMagic data with
      | some body => loadQueueLoop maxQueue body.length body []
      | none => .error "not an entmoot offline queue" := by
  have hread : d.read path = .ok data := by rw [Disk.read, hdata]
  rw [loadQueue, if_neg (by omega), hread]
  rfl

/-- `load_queue` accepts whole messages behind the magic, and keeps the last `maxQueue`. -/
theorem loadQueue_iff {d : Disk} {path : Path} {maxQueue : Nat} {data : Bytes} {q : List Msg}
    (hmax : 1 ≤ maxQueue) (hdata : d.lookup path = some data) :
    loadQueue d path maxQueue = .ok q ↔ ∃ all : List Msg, (∀ m ∈ all, MsgFits m) ∧
      data = queueBytes all ∧ q = all.drop (all.length - maxQueue) := by
  rw [loadQueue_eq hmax hdata]
  constructor
  · intro h
    split at h
    · next body hbody =>
      rw [Wire.stripPrefix_eq_some] at hbody
      obtain ⟨all, hfits, hall, rfl⟩ := loadQueueLoop_ok_iff.mp h
      exact ⟨all, hfits, by rw [hbody, hall, queueBytes], foldl_pushMax hmax _ _ (Nat.zero_le _)⟩
    · cases h
  · rintro ⟨all, hfits, rfl, rfl⟩
    rw [queueBytes, Wire.stripPrefix_append]
    exact loadQueueLoop_ok_iff.mpr
      ⟨all, hfits, rfl, (foldl_pushMax hmax all [] (Nat.zero_le _)).symm⟩

theorem loadQueue_queueBytes {d : Disk} {path : Path} {maxQueue : Nat} {q : List Msg}
    (hmax : 1 ≤ maxQueue) (hq : q.length ≤ maxQueue) (hfits : ∀ m ∈ q, MsgFits m)
    (h : d.lookup path = some (queueBytes q)) : loadQueue d path maxQueue = .ok q := by
  refine (loadQueue_iff hmax h).mpr ⟨q, hfits, rfl, ?_⟩
  rw [Nat.sub_eq_zero_of_le hq, List.drop_zero]

theorem saveQueue_lookup {d : Disk} {path : Path} {q : List Msg} (hfits : ∀ m ∈ q, MsgFits m) :
    ∃ d', saveQueue d path q = .ok d' ∧ d'.lookup path = some (queueBytes q) := by
  let tmp := withExtension path "queue.tmp".toList
  refine ⟨(d.write tmp (queueBytes q)).rename tmp path, ?_, ?_⟩
  · rw [saveQueue, writeQueue_of_fits _ hfits]
    rfl
  · rw [lookup_rename, if_pos rfl]

/-! ## Subscriptions -/

theorem loadSubs_iff {d : Disk} {path : Path} {data : Bytes} {clientId identity : Str}
    {entries : List (Str × QoS)} (hdata : d.lookup path = some data) :
    loadSubs d path = .ok (clientId, identity, entries) ↔
      SubsFit clientId identity entries ∧ data = subsBytes clientId identity entries := by
  have hread : d.read path = .ok data := by rw [Disk.read, hdata]
  rw [loadSubs, hread]
  constructor
  · intro h
    obtain ⟨_, hok, h⟩ := bind_eq_ok.mp h
    cases hok
    split at h
    · cases h
    · next body hbody =>
      rw [Wire.stripPrefix_eq_some] at hbody
      obtain ⟨⟨c, tail⟩, hc, h⟩ := bind_eq_ok.mp h
      obtain ⟨id, hid, h⟩ := bind_eq_ok.mp h
      obtain ⟨⟨i, tail'⟩, hi, h⟩ := bind_eq_ok.mp h
      obtain ⟨ident, hident, h⟩ := bind_eq_ok.mp h
      obtain ⟨es, hes, h⟩ := bind_eq_ok.mp h
      cases h
      obtain ⟨hclient, hbody'⟩ := readChunk_ok.mp hc
      obtain ⟨howner, htail⟩ := readChunk_ok.mp hi
      rw [utf8Or_eq_ok] at hid hident
      dsimp only at hid hident htail hes
      subst hid hident
      obtain ⟨hfits, hall⟩ := loadSubsLoop_ok_iff.mp hes
      refine ⟨⟨hclient, howner, hfits⟩, ?_⟩
      rw [hbody, hbody', htail, hall, subsBytes, List.append_assoc, List.append_assoc]
  · rintro ⟨hfit, rfl⟩
    rw [subsBytes, List.append_assoc, List.append_assoc]
    simp only [bind, Except.bind, Wire.stripPrefix_append, readChunk_putChunk _ hfit.clientId,
      readChunk_putChunk _ hfit.identity, utf8Or_asBytes]
    rw [loadSubsLoop_ok_iff.mpr ⟨hfit.entries, rfl⟩]
    rfl

theorem loadSubs_subsBytes {d : Disk} {path : Path} {c identity : Str} {es : List (Str × QoS)}
    (hfit : SubsFit c identity es) (h : d.lookup path = some (subsBytes c identity es)) :
    loadSubs d path = .ok (c, identity, es) :=
  (loadSubs_iff h).mpr ⟨hfit, rfl⟩

theorem loadSubs_fits {d : Disk} {path : Path} {c identity : Str} {es : List (Str × QoS)}
    (h : loadSubs d path = .ok (c, identity, es)) : SubsFit c identity es := by
  cases hdata : d.lookup path with
  | none =>
      simp only [loadSubs, Disk.read, hdata, bind, Except.bind] at h
      cases h
  | some data => exact ((loadSubs_iff hdata).mp h).1

/-- Entries that fit are saved, and their file holds their bytes. -/
theorem saveSubs_lookup {d : Disk} {path : Path} {clientId identity : Str}
    {entries : List (Str × QoS)} (hne : entries ≠ []) (hfit : SubsFit clientId identity entries) :
    ∃ d', saveSubs d path clientId identity entries = .ok d' ∧
      d'.lookup path = some (subsBytes clientId identity entries) := by
  let tmp := withExtension path "subs.tmp".toList
  refine ⟨(d.write tmp (subsBytes clientId identity entries)).rename tmp path, ?_, ?_⟩
  · rw [saveSubs, if_neg hne, writeChunk_of_fits _ hfit.clientId]
    simp only [bind, Except.bind, writeChunk_of_fits _ hfit.identity,
      writeSubs_of_fits _ hfit.entries]
    rfl
  · rw [lookup_rename, if_pos rfl]

/-- **The session files give back what was saved, and nothing else.**  A saved
queue loads as its last `maxQueue` messages and saved subscriptions as they were;
a file of any bytes that loads is the magic and whole entries, so that saving what
it loads as, if nothing was dropped, writes the same bytes; and neither loop needs
more turns than there are bytes. -/
theorem state_files_exact (d : Disk) (path : Path) :
    (∀ (q : List Msg) (maxQueue : Nat), 1 ≤ maxQueue → (∀ m ∈ q, MsgFits m) →
      ∃ d', saveQueue d path q = .ok d' ∧
        loadQueue d' path maxQueue = .ok (q.drop (q.length - maxQueue))) ∧
    (∀ (clientId identity : Str) (entries : List (Str × QoS)), entries ≠ [] →
      (SubsFit clientId identity entries →
        ∃ d', saveSubs d path clientId identity entries = .ok d') ∧
      ∀ d', saveSubs d path clientId identity entries = .ok d' →
        loadSubs d' path = .ok (clientId, identity, entries)) ∧
    (∀ (data : Bytes) (maxQueue : Nat) (q : List Msg), 1 ≤ maxQueue → d.lookup path = some data →
      loadQueue d path maxQueue = .ok q →
      ∃ all : List Msg, data = queueMagic ++ all.flatMap queueEntry ∧ (∀ m ∈ all, MsgFits m) ∧
        q = all.drop (all.length - maxQueue) ∧
        (all.length ≤ maxQueue → ∃ d', saveQueue d path q = .ok d' ∧ d'.lookup path = some data)) ∧
    (∀ (data : Bytes) (clientId identity : Str) (entries : List (Str × QoS)),
      d.lookup path = some data → loadSubs d path = .ok (clientId, identity, entries) →
      data = subsMagic ++ putChunk (asBytes clientId) ++ putChunk (asBytes identity) ++
          entries.flatMap subEntryBytes ∧
        (entries ≠ [] → ∃ d', saveSubs d path clientId identity entries = .ok d' ∧
          d'.lookup path = some data)) ∧
    ∀ (body : Bytes) (fuel : Nat), body.length ≤ fuel →
      (∀ maxQueue queue, loadQueueLoop maxQueue fuel body queue =
        loadQueueLoop maxQueue body.length body queue) ∧
      ∀ entries, loadSubsLoop fuel body entries = loadSubsLoop body.length body entries := by
  refine ⟨?_, ?_, ?_, ?_, ?_⟩
  · intro q maxQueue hmax hfits
    obtain ⟨d', hsave, hfile⟩ := @saveQueue_lookup d path q hfits
    exact ⟨d', hsave, (loadQueue_iff hmax hfile).mpr ⟨q, hfits, rfl, rfl⟩⟩
  · intro clientId identity entries hne
    refine ⟨fun hfit => (saveSubs_lookup hne hfit).imp fun _ h => h.1, fun d' hsave => ?_⟩
    have hfit := saveSubs_ok hsave hne
    obtain ⟨d'', hsave', hfile⟩ := @saveSubs_lookup d path _ _ _ hne hfit
    rw [hsave] at hsave'
    cases hsave'
    exact (loadSubs_iff hfile).mpr ⟨hfit, rfl⟩
  · intro data maxQueue q hmax hdata hload
    obtain ⟨all, hfits, rfl, rfl⟩ := (loadQueue_iff hmax hdata).mp hload
    refine ⟨all, rfl, hfits, rfl, fun hlen => ?_⟩
    rw [Nat.sub_eq_zero_of_le hlen, List.drop_zero]
    exact saveQueue_lookup hfits
  · intro data clientId identity entries hdata hload
    obtain ⟨hfit, rfl⟩ := (loadSubs_iff hdata).mp hload
    exact ⟨rfl, fun hne => saveSubs_lookup hne hfit⟩
  · intro body fuel hfuel
    constructor
    · intro maxQueue queue
      rw [loadQueueLoop_parse, loadQueueLoop_parse, Entries.parse_fuel readMsg_reads hfuel]
    · intro entries
      rw [loadSubsLoop_parse, loadSubsLoop_parse, Entries.parse_fuel readSub_reads hfuel]

/-- Two messages saved; a node that keeps one has the second. -/
theorem last_message_loads :
    ∃ d', saveQueue ∅ "q".toList [("kiln".toList, [57]), ("press".toList, [])] = .ok d' ∧
      loadQueue d' "q".toList 1 = .ok [("press".toList, [])] :=
  (state_files_exact ∅ "q".toList).1 [("kiln".toList, [57]), ("press".toList, [])] 1 (Nat.le_refl 1)
    (by
      intro m hm
      simp only [List.mem_cons, List.not_mem_nil, or_false] at hm
      rcases hm with rfl | rfl
      · exact ⟨by decide, by decide⟩
      · exact ⟨by decide, by decide⟩)

/-! ## The retained snapshot -/

namespace RetainedStore

theorem loadSnapshot_whole (s : RetainedStore) {es : List RetainedEntry}
    (hfits : ∀ e ∈ es, EntryFits e) :
    s.loadSnapshot (snapshotMagic ++ es.flatMap writeEntry) =
      ({ s with map := Keyed.insertAll s.map es }, .ok es.length) := by
  simp only [loadSnapshot, Wire.stripPrefix_append, loadSnapshotLoop_parse]
  rw [Entries.parse_whole readEntry_reads hfits (Nat.le_refl _)]
  simp only [Except.map, Nat.zero_add]

theorem writeEntry_truncEntry (e : RetainedEntry) : writeEntry (truncEntry e) = writeEntry e := by
  rw [writeEntry, truncEntry, truncMillis, toMillis_fromMillis (toMillis_lt e.2.2)]
  rfl

/-- A saved store, loaded over another: its entries win, times cut to
milliseconds. -/
theorem loadSnapshot_snapshotBytes [HashOrder] (s saved : RetainedStore)
    (hsz : ∀ e ∈ saved.snapshot, (asBytes e.1).length < 2 ^ 32 ∧ e.2.1.length < 2 ^ 32) :
    s.loadSnapshot saved.snapshotBytes =
      ({ s with map := Keyed.insertAll s.map (saved.snapshot.map truncEntry) },
        .ok saved.snapshot.length) := by
  have hbytes : saved.snapshotBytes =
      snapshotMagic ++ (saved.snapshot.map truncEntry).flatMap writeEntry := by
    rw [snapshotBytes, List.flatMap_map, List.flatMap_congr fun e _ => writeEntry_truncEntry e]
  have hfits : ∀ e ∈ saved.snapshot.map truncEntry, EntryFits e := by
    intro e he
    obtain ⟨e', he', rfl⟩ := List.mem_map.mp he
    exact ⟨(hsz e' he').1, (hsz e' he').2, _, toMillis_lt e'.2.2, rfl⟩
  rw [hbytes, loadSnapshot_whole s hfits, List.length_map]

/-- A snapshot with a broken tail is refused, and what stands before the tail is loaded all
the same. -/
theorem loadSnapshot_torn (s : RetainedStore) {es : List RetainedEntry} {bad : Bytes}
    (hfits : ∀ e ∈ es, EntryFits e) (hbad : Broken writeEntry EntryFits bad) :
    ∃ err, s.loadSnapshot (snapshotMagic ++ (es.flatMap writeEntry ++ bad)) =
      ({ s with map := Keyed.insertAll s.map es }, .error err) := by
  obtain ⟨err, hparse⟩ := Entries.parse_torn readEntry_reads hfits hbad (Nat.le_refl _)
  refine ⟨err, ?_⟩
  simp only [loadSnapshot, Wire.stripPrefix_append, loadSnapshotLoop_parse]
  rw [hparse]
  rfl

/-- **A refused snapshot leaves the store alone iff it tells it nothing new**: every
topic with a whole entry in front of the broken tail holds the last of them
already. -/
theorem refused_snapshot_iff (s : RetainedStore) (data : Bytes) :
    (∀ err, (s.loadSnapshot data).2 = .error err →
      ∀ t, (s.loadSnapshot data).1.map.lookup t = s.map.lookup t) ↔
    ∀ (es : List RetainedEntry) (bad : Bytes), (∀ e ∈ es, EntryFits e) →
      Broken writeEntry EntryFits bad → data = snapshotMagic ++ (es.flatMap writeEntry ++ bad) →
      ∀ t v, Keyed.lastValue t es = some v → s.map.lookup t = some v := by
  constructor
  · rintro h es bad hfits hbad rfl t v hlast
    obtain ⟨err, hload⟩ := s.loadSnapshot_torn hfits hbad
    have hsame := h err (by rw [hload]) t
    rw [hload, Keyed.lookup_insertAll, hlast] at hsame
    exact hsame.symm
  · intro h err herr t
    cases hbody : stripPrefix snapshotMagic data with
    | none => simp only [loadSnapshot, hbody]
    | some body =>
        obtain ⟨es, bad, rfl, hfits, hbad⟩ := Entries.exists_split EntryFits
          readEntry_reads.ne_nil body
        rw [Wire.stripPrefix_eq_some] at hbody
        subst hbody
        rcases hbad with rfl | hbad
        · rw [List.append_nil, loadSnapshot_whole s hfits] at herr
          cases herr
        · obtain ⟨err', hload⟩ := s.loadSnapshot_torn hfits hbad
          rw [hload, Keyed.lookup_insertAll]
          cases hlast : Keyed.lastValue t es with
          | none => rfl
          | some v => exact (h es bad hfits hbad rfl t v hlast).symm

/-- A snapshot with one entry and a byte too many, loaded at an empty store: it is
refused, and its entry is there. -/
theorem refused_snapshot_is_served :
    ¬ ∀ (s : RetainedStore) (data : Bytes) (err : String), (s.loadSnapshot data).2 = .error err →
      ∀ t, (s.loadSnapshot data).1.map.lookup t = s.map.lookup t := by
  intro h
  have hfits : ∀ e ∈ [("kiln".toList, [57], fromMillis 1)], EntryFits e := by
    intro e he
    rw [List.mem_singleton.mp he]
    exact ⟨by decide, by decide, 1, by decide, rfl⟩
  have hbad : Broken writeEntry EntryFits [0] := by
    refine ⟨by decide, fun e rest _ heq => ?_⟩
    have hlen := congrArg List.length heq
    simp only [writeEntry, Wire.putChunk_length, List.length_append, List.length_cons,
      List.length_nil] at hlen
    omega
  obtain ⟨err, hload⟩ := RetainedStore.empty.loadSnapshot_torn hfits hbad
  have hheld : (Keyed.insertAll RetainedStore.empty.map
      [("kiln".toList, [57], fromMillis 1)]).lookup "kiln".toList ≠
      RetainedStore.empty.map.lookup "kiln".toList := by decide
  have hsame := h .empty _ err (by rw [hload]) "kiln".toList
  rw [hload] at hsame
  exact hheld hsame

end RetainedStore

end Entmoot
