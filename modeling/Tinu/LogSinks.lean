import Tinu.Lib.Ansi
import Tinu.MessageMemory
import Tinu.StatMessages

/-!
# Where messages go (`log.c`, `main.c`)

The handlers that come with the library write to streams and to the system log; the statistics
count.  `tinu_main` registers them as the options say, after a first one that it takes away again.

* `sink` — a handler, up to the end of the process in a failed assertion;
* `mainLive` — the handlers that are live while the tests run;
* `dispatch_steady` — a message that every handler passes on reaches each that takes its priority;
* `main_log_outputs` — over any run, each sink holds the messages of its level, each once and in
  order, and nothing else;
* `fancyText_shows` — the colourful log shows as the plain one.
-/

set_option autoImplicit false

namespace Tinu

open Memory (formatSimple formatTag)
open Ansi (Shows)

/-! ## The handlers of `log.c` -/

/-- The world that the handlers write to: the texts of the streams, what `syslog` was called with,
and the words of the statistics. -/
structure LogWorld where
  streams : Ptr → CString
  syslog : List (Int × CString)
  words : StatWords

/-- `fprintf`. -/
def LogWorld.write (w : LogWorld) (stream : Ptr) (text : CString) : LogWorld :=
  { w with streams := Function.update w.streams stream (w.streams stream ++ text) }

/-- A handler, in a process that a failed assertion or `abort` ends (`none`). -/
def sink (f : Message → Ptr → LogWorld → Option (Bool × LogWorld)) :
    MessageHandler (Option LogWorld) :=
  fun msg userData w =>
    match w.bind (f msg userData) with
    | some (propagate, w) => (propagate, some w)
    | none => (false, none)

/-- `(gboolean) user_data`. -/
def gbooleanOfPointer (userData : Ptr) : Bool := decide (userData % 2 ^ 32 ≠ 0)

/-- `LOGMSG_PROPAGATE`. -/
def LOGMSG_PROPAGATE : Ptr := 1

/-- The line of `msg_file_handler`. -/
def logLine (msg : Message) : Option CString :=
  (msgFormatPriority msg.priority).map fun name =>
    '[' :: (name ++ ("] ".toList ++ (formatSimple msg ++ ['\n'])))

/-- `msg_file_handler`. -/
def msgFileHandler (msg : Message) (userData : Ptr) (w : LogWorld) : Option (Bool × LogWorld) :=
  (logLine msg).map fun line => (true, w.write userData line)

/-- `msg_stderr_handler`. -/
def msgStderrHandler (stderr : Ptr) (msg : Message) (userData : Ptr) (w : LogWorld) :
    Option (Bool × LogWorld) :=
  (msgFileHandler msg stderr w).map fun r => (gbooleanOfPointer userData, r.2)

/-- The `switch` of `msg_stderr_fancy_handler`. -/
def fancyColor (priority : Int) : CString :=
  if priority = LOG_EMERG ∨ priority = LOG_ALERT ∨ priority = LOG_CRIT then
    Ansi.seq "41".toList ++ Ansi.seq "1;37".toList
  else if priority = LOG_ERR then Ansi.seq "1;31".toList
  else if priority = LOG_WARNING then Ansi.seq "1;33".toList
  else if priority = LOG_DEBUG then Ansi.seq "1;30".toList
  else Ansi.seq "1;34".toList

/-- `" [\033[36m%s\033[0m=%s]"`. -/
def fancyTag (t : MessageTag) : CString :=
  " [".toList ++ (Ansi.coloured "36".toList t.tag ++ ('=' :: (t.value ++ [']'])))

/-- The line of `msg_stderr_fancy_handler`. -/
def fancyLine (msg : Message) : Option CString :=
  (msgFormatPriority msg.priority).map fun name =>
    '[' :: (fancyColor msg.priority ++ (name ++ (Ansi.seq ['0'] ++ ("] ".toList ++
      (msg.message ++ (msg.tags.flatMap fancyTag ++ ['\n']))))))

/-- `msg_stderr_fancy_handler`. -/
def msgStderrFancyHandler (stderr : Ptr) (msg : Message) (userData : Ptr) (w : LogWorld) :
    Option (Bool × LogWorld) :=
  (fancyLine msg).map fun line => (gbooleanOfPointer userData, w.write stderr line)

/-- `msg_syslog_handler`. -/
def msgSyslogHandler (msg : Message) (userData : Ptr) (w : LogWorld) : Option (Bool × LogWorld) :=
  some (gbooleanOfPointer userData,
    { w with syslog := w.syslog ++ [(msg.priority, formatSimple msg)] })

/-- `_stat_message_counter`. -/
def statCounter (msg : Message) (_ : Ptr) (w : LogWorld) : Option (Bool × LogWorld) :=
  some (true, { w with words := countMessage w.words msg.priority })

/-! ## The set-up of `tinu_main` -/

/-- The options about the log; `file` is the stream that `fopen` gave, and `report` says that
statistics are kept. -/
structure LogOptions where
  silent : Bool
  fancy : Bool
  syslog : Bool
  priority : Int
  file : Option Ptr
  report : Bool

/-- The addresses of the records of the handlers, and of the statistics. -/
structure SinkAddrs where
  init : Ptr
  stderr : Ptr
  syslog : Ptr
  file : Ptr
  stat : Ptr
  statistics : Ptr

/-- The handler for `stderr`. -/
def stderrSink (stderr : Ptr) (o : LogOptions) : MessageHandler (Option LogWorld) :=
  if o.fancy then sink (msgStderrFancyHandler stderr) else sink (msgStderrHandler stderr)

/-- What `tinu_main` and `stat_start` do to the log before the tests run. -/
def mainLogOps (stderr : Ptr) (addrs : SinkAddrs) (o : LogOptions) :
    List (LogOp (Option LogWorld)) :=
  .register addrs.init (sink (msgStderrHandler stderr)) LOG_ERR LOGMSG_PROPAGATE ::
    ((if o.silent then []
      else [.register addrs.stderr (stderrSink stderr o) o.priority LOGMSG_PROPAGATE]) ++
    (.unregister addrs.init ::
    ((if o.syslog then [.register addrs.syslog (sink msgSyslogHandler) o.priority LOGMSG_PROPAGATE]
      else []) ++
    ((match o.file with
      | some log => [.register addrs.file (sink msgFileHandler) o.priority log]
      | none => []) ++
    (if o.report then
      [.register addrs.stat (sink statCounter) LOG_DEBUG addrs.statistics]
    else [])))))

/-- The handlers that are live then. -/
def mainLive (stderr : Ptr) (addrs : SinkAddrs) (o : LogOptions) :
    List (LogHandler (Option LogWorld)) :=
  (if o.report then [⟨addrs.stat, LOG_DEBUG, addrs.statistics, sink statCounter⟩] else []) ++
    ((match o.file with
      | some log => [⟨addrs.file, o.priority, log, sink msgFileHandler⟩]
      | none => []) ++
    ((if o.syslog then [⟨addrs.syslog, o.priority, LOGMSG_PROPAGATE, sink msgSyslogHandler⟩]
      else []) ++
    (if o.silent then []
      else [⟨addrs.stderr, o.priority, LOGMSG_PROPAGATE, stderrSink stderr o⟩])))

/-- **The first handler is gone**, and the others are there, the newest first. -/
theorem mainLogOps_live (stderr : Ptr) {addrs : SinkAddrs} (hne : addrs.stderr ≠ addrs.init)
    (o : LogOptions) :
    (mainLogOps stderr addrs o).foldl liveStep [] = mainLive stderr addrs o := by
  unfold mainLogOps mainLive
  cases o.silent <;> cases o.syslog <;> cases o.file <;> cases o.report <;>
    simp [liveStep, hne]

/-! ## One message -/

/-- What a handler makes of the world. -/
def LogHandler.effect (h : LogHandler (Option LogWorld)) (msg : Message) (w : LogWorld) :
    LogWorld :=
  ((h.handler msg h.userData (some w)).2).getD w

/-- The handler passes the message on, in a process that goes on. -/
def LogHandler.Steady (h : LogHandler (Option LogWorld)) (msg : Message) : Prop :=
  ∀ w, h.handler msg h.userData (some w) = (true, some (h.effect msg w))

/-- **A message that every handler passes on** reaches each that takes its priority. -/
theorem dispatch_steady {msg : Message} :
    ∀ {live : List (LogHandler (Option LogWorld))} (w : LogWorld), (∀ h ∈ live, h.Steady msg) →
      (dispatch msg live (some w)).2 =
        some (live.foldl (fun w h => if msg.priority ≤ h.maxPriority then h.effect msg w else w) w)
  | [], _, _ => rfl
  | h :: live, w, hsteady => by
    have hrest := fun w => @dispatch_steady msg live w fun h' hm =>
      hsteady h' (List.mem_cons_of_mem _ hm)
    rw [dispatch, List.foldl_cons]
    split
    · rw [hsteady h List.mem_cons_self w]
      exact hrest _
    · exact hrest w

theorem steady_of {h : LogHandler (Option LogWorld)} {msg : Message} {f : LogWorld → LogWorld}
    (he : ∀ w, h.handler msg h.userData (some w) = (true, some (f w))) : h.Steady msg := by
  intro w
  rw [LogHandler.effect, he]
  rfl

theorem sink_some {f : Message → Ptr → LogWorld → Option (Bool × LogWorld)} {msg : Message}
    {userData : Ptr} {w w' : LogWorld} (h : f msg userData w = some (true, w')) :
    sink f msg userData (some w) = (true, some w') := by
  simp only [sink, Option.bind_some, h]

/-- A priority in range has a name. -/
theorem msgFormatPriority_inRange {p : Int} (hp : InRange p) :
    ∃ name, msgFormatPriority p = some name ∧ Ansi.esc ∉ name := by
  have hbounds : 0 ≤ p ∧ p ≤ 7 := hp
  obtain ⟨n, rfl⟩ := Int.eq_ofNat_of_zero_le hbounds.1
  have hn : n < 8 := by omega
  interval_cases n
  all_goals exact ⟨_, rfl, by decide +kernel⟩

/-- The text of a message in a log file, of a priority in range. -/
def plainText (msg : Message) : CString := (logLine msg).getD []

/-- The text of a message in the colourful log. -/
def fancyText (msg : Message) : CString := (fancyLine msg).getD []

theorem logLine_inRange {msg : Message} (hp : InRange msg.priority) :
    logLine msg = some (plainText msg) := by
  obtain ⟨name, hname, -⟩ := msgFormatPriority_inRange hp
  rw [plainText, logLine, hname]
  rfl

theorem fancyLine_inRange {msg : Message} (hp : InRange msg.priority) :
    fancyLine msg = some (fancyText msg) := by
  obtain ⟨name, hname, -⟩ := msgFormatPriority_inRange hp
  rw [fancyText, fancyLine, hname]
  rfl

/-- The text of a message on `stderr`. -/
def stderrText (o : LogOptions) (msg : Message) : CString :=
  if o.fancy then fancyText msg else plainText msg

section Effects

variable {msg : Message} {w : LogWorld}

theorem file_sink (hp : InRange msg.priority) (log : Ptr) :
    sink msgFileHandler msg log (some w) = (true, some (w.write log (plainText msg))) :=
  sink_some (by rw [msgFileHandler, logLine_inRange hp]; rfl)

theorem syslog_sink : sink msgSyslogHandler msg LOGMSG_PROPAGATE (some w) =
    (true, some { w with syslog := w.syslog ++ [(msg.priority, formatSimple msg)] }) :=
  sink_some rfl

theorem stat_sink (self : Ptr) : sink statCounter msg self (some w) =
    (true, some { w with words := countMessage w.words msg.priority }) :=
  sink_some rfl

theorem stderr_sink (hp : InRange msg.priority) (stderr : Ptr) (o : LogOptions) :
    stderrSink stderr o msg LOGMSG_PROPAGATE (some w) =
      (true, some (w.write stderr (stderrText o msg))) := by
  unfold stderrSink stderrText
  split
  · exact sink_some (by rw [msgStderrFancyHandler, fancyLine_inRange hp]; rfl)
  · exact sink_some (by rw [msgStderrHandler, msgFileHandler, logLine_inRange hp]; rfl)

end Effects

/-- What one message adds to the world: the statistics first, `stderr` last. -/
def LogWorld.receive (stderr : Ptr) (o : LogOptions) (w : LogWorld) (msg : Message) : LogWorld :=
  let w := if o.report then { w with words := countMessage w.words msg.priority } else w
  if msg.priority ≤ o.priority then
    let w :=
      match o.file with
      | some log => w.write log (plainText msg)
      | none => w
    let w :=
      if o.syslog then { w with syslog := w.syslog ++ [(msg.priority, formatSimple msg)] } else w
    if o.silent then w else w.write stderr (stderrText o msg)
  else w

/-- **One message, through the handlers of `tinu_main`.** -/
theorem dispatch_mainLive {msg : Message} (hp : InRange msg.priority) (stderr : Ptr)
    (addrs : SinkAddrs) (o : LogOptions) (w : LogWorld) :
    (dispatch msg (mainLive stderr addrs o) (some w)).2 = some (w.receive stderr o msg) := by
  have hdebug : msg.priority ≤ LOG_DEBUG := hp.2
  rw [dispatch_steady]
  · unfold mainLive LogWorld.receive
    by_cases hle : msg.priority ≤ o.priority <;>
      cases o.report <;> cases o.file <;> cases o.syslog <;> cases o.silent <;>
        simp [LogHandler.effect, hdebug, hle, file_sink hp, syslog_sink, stat_sink, stderr_sink hp]
  · intro h hm
    simp only [mainLive, List.mem_append] at hm
    obtain hm | hm | hm | hm := hm
    · split at hm
      · obtain rfl := List.mem_singleton.mp hm
        exact steady_of fun w => stat_sink addrs.statistics
      · cases hm
    · split at hm
      · obtain rfl := List.mem_singleton.mp hm
        exact steady_of fun w => file_sink hp _
      · cases hm
    · split at hm
      · obtain rfl := List.mem_singleton.mp hm
        exact steady_of fun w => syslog_sink
      · cases hm
    · split at hm
      · cases hm
      · obtain rfl := List.mem_singleton.mp hm
        exact steady_of fun w => stderr_sink hp _ _

/-! ## Runs -/

/-- The messages that the sinks of the level get. -/
def atLevel (o : LogOptions) (ms : List Message) : List Message :=
  ms.filter fun msg => msg.priority ≤ o.priority

/-- The messages were delivered: each sink of the options has those of its level, once and in
order, and nothing else was written. -/
structure Delivered (stderr : Ptr) (o : LogOptions) (ms : List Message) (w w' : LogWorld) :
    Prop where
  onStderr : w'.streams stderr =
    w.streams stderr ++ if o.silent then [] else (atLevel o ms).flatMap (stderrText o)
  inFile : ∀ log, o.file = some log →
    w'.streams log = w.streams log ++ (atLevel o ms).flatMap plainText
  inSyslog : w'.syslog = w.syslog ++
    if o.syslog then (atLevel o ms).map fun msg => (msg.priority, formatSimple msg) else []
  counted : w'.words =
    if o.report then (ms.map Message.priority).foldl countMessage w.words else w.words
  others : ∀ s, s ≠ stderr → o.file ≠ some s → w'.streams s = w.streams s

theorem Delivered.refl (stderr : Ptr) (o : LogOptions) (w : LogWorld) :
    Delivered stderr o [] w w := by
  refine ⟨?_, fun log _ => (List.append_nil _).symm, ?_, ?_, fun _ _ _ => rfl⟩
  · cases o.silent <;> exact (List.append_nil _).symm
  · cases o.syslog <;> exact (List.append_nil _).symm
  · cases o.report <;> rfl

theorem Delivered.trans {stderr : Ptr} {o : LogOptions} {ms ms' : List Message}
    {w w' w'' : LogWorld} (h : Delivered stderr o ms w w') (h' : Delivered stderr o ms' w' w'') :
    Delivered stderr o (ms ++ ms') w w'' := by
  have hlevel : atLevel o (ms ++ ms') = atLevel o ms ++ atLevel o ms' := List.filter_append ..
  refine ⟨?_, fun log hlog => ?_, ?_, ?_, fun s hs hf => ?_⟩
  · rw [h'.onStderr, h.onStderr, hlevel, List.append_assoc, List.flatMap_append]
    cases o.silent <;> rfl
  · rw [h'.inFile log hlog, h.inFile log hlog, hlevel, List.append_assoc, List.flatMap_append]
  · rw [h'.inSyslog, h.inSyslog, hlevel, List.append_assoc, List.map_append]
    cases o.syslog <;> rfl
  · rw [h'.counted, h.counted, List.map_append, List.foldl_append]
    cases o.report <;> rfl
  · rw [h'.others s hs hf, h.others s hs hf]

/-- **One message is delivered.** -/
theorem receive_delivered {stderr : Ptr} {o : LogOptions} (hfile : o.file ≠ some stderr)
    (w : LogWorld) (msg : Message) : Delivered stderr o [msg] w (w.receive stderr o msg) := by
  have hlevel : atLevel o [msg] = if msg.priority ≤ o.priority then [msg] else [] := by
    by_cases hle : msg.priority ≤ o.priority <;> simp [atLevel, hle]
  unfold LogWorld.receive
  refine ⟨?_, fun log hlog => ?_, ?_, ?_, fun s hs hf => ?_⟩
  · rw [hlevel]
    cases hf : o.file with
    | none =>
      cases o.report <;> cases o.syslog <;> cases o.silent <;>
        by_cases hle : msg.priority ≤ o.priority <;> simp [hle, LogWorld.write]
    | some log =>
      have hne : stderr ≠ log := fun he => hfile (by rw [hf, he])
      cases o.report <;> cases o.syslog <;> cases o.silent <;>
        by_cases hle : msg.priority ≤ o.priority <;> simp [hle, LogWorld.write, hne]
  · have hne : log ≠ stderr := fun he => hfile (by rw [hlog, he])
    rw [hlevel, hlog]
    cases o.report <;> cases o.syslog <;> cases o.silent <;>
      by_cases hle : msg.priority ≤ o.priority <;> simp [hle, LogWorld.write, hne]
  · rw [hlevel]
    cases o.report <;> cases o.file <;> cases o.syslog <;> cases o.silent <;>
      by_cases hle : msg.priority ≤ o.priority <;> simp [hle, LogWorld.write]
  · cases o.report <;> cases o.file <;> cases o.syslog <;> cases o.silent <;>
      by_cases hle : msg.priority ≤ o.priority <;> simp [hle, LogWorld.write]
  · cases hlog : o.file with
    | none =>
      cases o.report <;> cases o.syslog <;> cases o.silent <;>
        by_cases hle : msg.priority ≤ o.priority <;> simp [hle, LogWorld.write, hs]
    | some log =>
      have hne : s ≠ log := fun he => hf (by rw [hlog, he])
      cases o.report <;> cases o.syslog <;> cases o.silent <;>
        by_cases hle : msg.priority ≤ o.priority <;> simp [hle, LogWorld.write, hs, hne]

/-- The log once the set-up is done. -/
theorem mainLogOps_ready (stderr : Ptr) {addrs : SinkAddrs} (hne : addrs.stderr ≠ addrs.init)
    (o : LogOptions) :
    Cached ((mainLogOps stderr addrs o).foldl LogState.step LogState.init) ∧
      ((mainLogOps stderr addrs o).foldl LogState.step LogState.init).logList =
        mainLive stderr addrs o := by
  obtain ⟨hc, hlist⟩ := run_cached (mainLogOps stderr addrs o) init_cached
  exact ⟨hc, hlist.trans (mainLogOps_live stderr hne o)⟩

/-- Every message of a run is delivered. -/
theorem run_delivered {stderr : Ptr} {addrs : SinkAddrs} {o : LogOptions}
    {st : LogState (Option LogWorld)}
    (hready : Cached st ∧ st.logList = mainLive stderr addrs o) (hfile : o.file ≠ some stderr) :
    ∀ {es : List LogEntry} (w : LogWorld), (∀ e ∈ es, InRange e.toMessage.priority) →
      ∃ w', logWorld st (some w) (es.map .emit) = some w' ∧
        Delivered stderr o (es.map LogEntry.toMessage) w w'
  | [], w, _ => ⟨w, rfl, Delivered.refl stderr o w⟩
  | e :: es, w, hrange => by
    have hstep : (st.emit e (some w)).2 = some (w.receive stderr o e.toMessage) := by
      rw [emit_eq_dispatch hready.1, hready.2, dispatch_mainLive (hrange e List.mem_cons_self)]
    obtain ⟨w', hrun, hdelivered⟩ := run_delivered hready hfile (w.receive stderr o e.toMessage)
      fun e' he => hrange e' (List.mem_cons_of_mem _ he)
    refine ⟨w', ?_, (receive_delivered hfile w e.toMessage).trans hdelivered⟩
    rw [List.map_cons, logWorld, hstep, hrun]

/-- **Over any run** that starts with the set-up of `tinu_main`, each sink that the options ask for
holds the messages of its level, each once and in order, and nothing else is written. -/
theorem main_log_outputs {stderr : Ptr} {addrs : SinkAddrs} (hne : addrs.stderr ≠ addrs.init)
    {o : LogOptions} (hfile : o.file ≠ some stderr) (w : LogWorld) {es : List LogEntry}
    (hrange : ∀ e ∈ es, InRange e.toMessage.priority) :
    ∃ w', logWorld ((mainLogOps stderr addrs o).foldl LogState.step LogState.init) (some w)
        (es.map .emit) = some w' ∧
      Delivered stderr o (es.map LogEntry.toMessage) w w' :=
  run_delivered (mainLogOps_ready stderr hne o) hfile w hrange

/-- A file beside `stderr`, and two messages of which one is above the level. -/
def errorsToFile : LogOptions := ⟨false, false, false, LOG_ERR, some 7, true⟩

theorem main_log_outputs_file :
    ∃ w', logWorld ((mainLogOps 2 ⟨10, 11, 12, 13, 14, 15⟩ errorsToFile).foldl LogState.step
        LogState.init) (some ⟨fun _ => [], [], fun _ => 0⟩)
        ([.wrap LOG_ERR ['e'] [], .wrap LOG_INFO ['i'] []].map .emit) = some w' ∧
      Delivered 2 errorsToFile [⟨LOG_ERR, ['e'], []⟩, ⟨LOG_INFO, ['i'], []⟩]
        ⟨fun _ => [], [], fun _ => 0⟩ w' := by
  refine main_log_outputs (by decide) (by decide) _ fun e he => ?_
  rw [List.mem_cons, List.mem_singleton] at he
  obtain rfl | rfl := he
  · exact ⟨by decide, by decide⟩
  · exact ⟨by decide, by decide⟩

/-! ## Colours -/

/-- There is no `ESC` in a message. -/
def NoEsc (msg : Message) : Prop :=
  Ansi.esc ∉ msg.message ∧ ∀ t ∈ msg.tags, Ansi.esc ∉ t.tag ∧ Ansi.esc ∉ t.value

theorem fancyColor_shows (priority : Int) : Shows (fancyColor priority) [] := by
  unfold fancyColor
  split
  · exact (Ansi.shows_seq (by decide)).append (Ansi.shows_seq (by decide))
  · split
    · exact Ansi.shows_seq (by decide)
    · split
      · exact Ansi.shows_seq (by decide)
      · split
        · exact Ansi.shows_seq (by decide)
        · exact Ansi.shows_seq (by decide)

theorem fancyTag_shows {t : MessageTag} (htag : Ansi.esc ∉ t.tag) (hvalue : Ansi.esc ∉ t.value) :
    Shows (fancyTag t) (formatTag t) := by
  have hopen : Shows " [".toList " [".toList := Ansi.shows_plain (by decide)
  have hname : Shows (Ansi.coloured "36".toList t.tag) t.tag :=
    Shows.coloured (by decide) (Ansi.shows_plain htag)
  have hrest : Shows ('=' :: (t.value ++ [']'])) ('=' :: (t.value ++ [']'])) := by
    refine Ansi.shows_plain ?_
    simp only [List.mem_cons, List.mem_append, List.not_mem_nil, or_false, not_or]
    exact ⟨by decide, hvalue, by decide⟩
  have hall := hopen.append (hname.append hrest)
  rwa [show formatTag t = " [".toList ++ (t.tag ++ ('=' :: (t.value ++ [']']))) by
    simp [formatTag]]

/-- **The colourful text** shows as the plain one. -/
theorem fancyText_shows {msg : Message} (hp : InRange msg.priority) (hesc : NoEsc msg) :
    Shows (fancyText msg) (plainText msg) := by
  obtain ⟨name, hname, hplain⟩ := msgFormatPriority_inRange hp
  have hfancy : fancyText msg = ['['] ++ (fancyColor msg.priority ++ (name ++ (Ansi.seq ['0'] ++
      ("] ".toList ++ (msg.message ++ (msg.tags.flatMap fancyTag ++ ['\n'])))))) := by
    rw [fancyText, fancyLine, hname]
    rfl
  have htext : plainText msg = ['['] ++ ([] ++ (name ++ ([] ++
      ("] ".toList ++ (msg.message ++ (msg.tags.flatMap formatTag ++ ['\n'])))))) := by
    rw [plainText, logLine, hname]
    simp [formatSimple]
  rw [hfancy, htext]
  have htags := Shows.flatMap fun t ht => fancyTag_shows (hesc.2 t ht).1 (hesc.2 t ht).2
  have hend : Shows ['\n'] ['\n'] := Ansi.shows_plain (by decide)
  have hopen : Shows ['['] ['['] := Ansi.shows_plain (by decide)
  have hclose : Shows "] ".toList "] ".toList := Ansi.shows_plain (by decide)
  have hreset : Shows (Ansi.seq ['0']) [] := Ansi.shows_seq (by decide)
  exact hopen.append ((fancyColor_shows _).append ((Ansi.shows_plain hplain).append
    (hreset.append (hclose.append ((Ansi.shows_plain hesc.1).append (htags.append hend))))))

/-- **Colours change nothing but colours**: over any run the colourful log shows as the plain one
does, and everything else that is written is the same. -/
theorem fancy_log_shows {stderr : Ptr} {addrs : SinkAddrs} (hne : addrs.stderr ≠ addrs.init)
    {o : LogOptions} (hfile : o.file ≠ some stderr) (w : LogWorld) {es : List LogEntry}
    (hes : ∀ e ∈ es, InRange e.toMessage.priority ∧ NoEsc e.toMessage) :
    ∃ w' w'' text,
      logWorld ((mainLogOps stderr addrs { o with fancy := true }).foldl LogState.step
        LogState.init) (some w) (es.map .emit) = some w' ∧
      logWorld ((mainLogOps stderr addrs { o with fancy := false }).foldl LogState.step
        LogState.init) (some w) (es.map .emit) = some w'' ∧
      w'.streams stderr = w.streams stderr ++ text ∧
      w''.streams stderr = w.streams stderr ++ Ansi.strip text ∧
      (∀ s, s ≠ stderr → w'.streams s = w''.streams s) ∧
      w'.syslog = w''.syslog ∧ w'.words = w''.words := by
  have hrange : ∀ e ∈ es, InRange e.toMessage.priority := fun e he => (hes e he).1
  obtain ⟨w', hrun', h'⟩ :=
    run_delivered (mainLogOps_ready stderr hne { o with fancy := true }) hfile w hrange
  obtain ⟨w'', hrun'', h''⟩ :=
    run_delivered (mainLogOps_ready stderr hne { o with fancy := false }) hfile w hrange
  have hlevel : ∀ msg ∈ atLevel o (es.map LogEntry.toMessage),
      InRange msg.priority ∧ NoEsc msg := by
    intro msg hmsg
    obtain ⟨e, he, rfl⟩ := List.mem_map.mp (List.mem_filter.mp hmsg).1
    exact hes e he
  have hshows : Shows ((atLevel o (es.map LogEntry.toMessage)).flatMap fancyText)
      ((atLevel o (es.map LogEntry.toMessage)).flatMap plainText) :=
    Shows.flatMap fun msg hmsg => fancyText_shows (hlevel msg hmsg).1 (hlevel msg hmsg).2
  refine ⟨w', w'', if o.silent then [] else
    (atLevel o (es.map LogEntry.toMessage)).flatMap fancyText, hrun', hrun'', h'.onStderr, ?_,
    fun s hs => ?_, h'.inSyslog.trans h''.inSyslog.symm, h'.counted.trans h''.counted.symm⟩
  · rw [h''.onStderr]
    cases o.silent
    · exact congrArg _ hshows.strip_eq.symm
    · rfl
  · by_cases hf : o.file = some s
    · exact (h'.inFile s hf).trans (h''.inFile s hf).symm
    · exact (h'.others s hs hf).trans (h''.others s hs hf).symm

theorem fancy_log_shows_file :
    ∃ w' w'' text,
      logWorld ((mainLogOps 2 ⟨10, 11, 12, 13, 14, 15⟩ { errorsToFile with fancy := true }).foldl
        LogState.step LogState.init) (some ⟨fun _ => [], [], fun _ => 0⟩)
        ([.wrap LOG_ERR ['e'] []].map .emit) = some w' ∧
      logWorld ((mainLogOps 2 ⟨10, 11, 12, 13, 14, 15⟩ { errorsToFile with fancy := false }).foldl
        LogState.step LogState.init) (some ⟨fun _ => [], [], fun _ => 0⟩)
        ([.wrap LOG_ERR ['e'] []].map .emit) = some w'' ∧
      w'.streams 2 = [] ++ text ∧ w''.streams 2 = [] ++ Ansi.strip text ∧
      (∀ s, s ≠ 2 → w'.streams s = w''.streams s) ∧
      w'.syslog = w''.syslog ∧ w'.words = w''.words := by
  refine fancy_log_shows (by decide) (by decide) ⟨fun _ => [], [], fun _ => 0⟩ fun e he => ?_
  obtain rfl := List.mem_singleton.mp he
  refine ⟨⟨by decide, by decide⟩, by decide, fun t ht => ?_⟩
  cases ht

end Tinu
