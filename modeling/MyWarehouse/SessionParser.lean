/-
The parser of a session.

A session installs two callbacks, and both return 0. `HttpParser.http` is `http_parser_execute`
with these, the value of the parameter `HttpParser` in the program.

The pieces of a body that one call reports never touch: a piece ends where the body does or
where the data does, and behind it comes a byte that is no body (`Pieces`). So the callbacks of
a call are determined by the bytes they report (`neat_unique`), and these are the events of
the reading.
-/
import MyWarehouse.ParserReading
import MyWarehouse.HttpMessage

set_option autoImplicit false

namespace MyWarehouse

open Loop http_parser_execute Segment

/-! ## The parser -/

/-- `parser_settings_` as `http_session::start` fills it. -/
def http_session.parser_settings_ : http_parser_settings where
  on_data f := f = .body
  on_notify n := n = .message_complete
  on_headers_complete := false
  result _ := 0

/-- What a callback of the parser is to the session. -/
def ParserCall.callback : ParserCall → Option Callback
  | .data .body at_ len => some (.on_body at_ len)
  | .notify .message_complete => some .on_message_complete
  | _ => none

/-- The parser a session uses. -/
def HttpParser.http : HttpParser where
  State := http_parser_struct
  http_parser_init := MyWarehouse.http_parser_init .HTTP_REQUEST
  http_parser_execute parser data :=
    let (_, parser, calls) :=
      MyWarehouse.http_parser_execute http_session.parser_settings_ parser data
    (parser, calls.filterMap ParserCall.callback)

/-! ## The pieces of a body -/

/-- The piece of a body a callback reports. -/
def ParserCall.piece : ParserCall → Option (ℕ × ℕ)
  | .data .body at_ len => some (at_, len)
  | _ => none

/-- The pieces of a body among the callbacks. -/
def body_pieces (calls : List ParserCall) : List (ℕ × ℕ) := calls.filterMap ParserCall.piece

/-- Pieces that are not empty and do not touch: behind the end of one there is a byte that
belongs to none. This is what makes the pieces of a call the runs of body bytes in its data, and
not merely a way of cutting these runs up. -/
structure Apart (calls : List ParserCall) : Prop where
  pos : ∀ a ∈ body_pieces calls, 0 < a.2
  apart : (body_pieces calls).Pairwise fun a b => a.1 + a.2 < b.1

/-- The pieces so far, when a script is at the byte `i` in the phase `ph`. The pieces end in
front of `i`, or with `i` when the script has just closed one; in front of a body there is a byte
between them and `i`; and behind the mark, where the next piece will begin, there are none. -/
structure Pieces (i : ℕ) (ph : BodyPhase) (x : Execution) : Prop extends Apart x.calls where
  ends : ∀ a ∈ body_pieces x.calls, a.1 + a.2 ≤ if ph = .closed then i + 1 else i
  before : ph = .before → ∀ a ∈ body_pieces x.calls, a.1 + a.2 < i
  mark : ∀ k, x.marks .body = some k →
    (ph = .marked ∧ k = i ∨ k < i) ∧ ∀ a ∈ body_pieces x.calls, a.1 + a.2 < k

section Pieces

variable {settings : http_parser_settings} {i : ℕ} {ph : BodyPhase} {x : Execution}

/-- Pieces of callbacks in a row. -/
theorem body_pieces_append (calls calls' : List ParserCall) :
    body_pieces (calls ++ calls') = body_pieces calls ++ body_pieces calls' :=
  List.filterMap_append

/-- A callback that reports no body. -/
theorem body_pieces_concat {c : ParserCall} (hc : c.piece = none) (calls : List ParserCall) :
    body_pieces (calls ++ [c]) = body_pieces calls := by
  rw [body_pieces_append]
  simp [body_pieces, hc]

/-- The pieces and the mark of the body are the same. -/
theorem Pieces.congr (h : Pieces i ph x) {y : Execution}
    (hcalls : body_pieces y.calls = body_pieces x.calls)
    (hmark : y.marks .body = x.marks .body) : Pieces i ph y := by
  refine ⟨⟨?_, ?_⟩, ?_, ?_, ?_⟩
  · rw [hcalls]
    exact h.pos
  · rw [hcalls]
    exact h.apart
  · rw [hcalls]
    exact h.ends
  · rw [hcalls]
    exact h.before
  · rw [hcalls, hmark]
    exact h.mark

/-- A callback for another field reports no body. -/
theorem piece_data_of_ne {f : http_data} (hf : f ≠ .body) (at_ len : ℕ) :
    (ParserCall.data f at_ len).piece = none := by
  rcases f
  case body => exact absurd rfl hf
  all_goals rfl

/-- The first byte of a body sets the mark, behind all pieces; a byte further on finds it set. -/
theorem Pieces.set_mark (h : Pieces i .before x) : Pieces i .marked (x.set_mark .body i) := by
  unfold Execution.set_mark
  split_ifs with hnone
  · refine ⟨h.toApart, fun a ha => (h.before rfl a ha).le, nofun, fun k hk => ?_⟩
    simp only [Function.update_self, Option.some.injEq] at hk
    subst hk
    exact ⟨Or.inl ⟨rfl, rfl⟩, h.before rfl⟩
  · refine ⟨h.toApart, fun a ha => (h.before rfl a ha).le, nofun, fun k hk => ?_⟩
    obtain ⟨hlt, hk'⟩ := h.mark k hk
    exact ⟨Or.inr (hlt.resolve_left nofun), hk'⟩

/-- A piece that begins at the mark and ends behind this byte, or in front of it. -/
theorem Pieces.add {k n : ℕ} (h : Pieces i ph x) (hk : x.marks .body = some k) (hn : k < n)
    (hni : n ≤ i + 1) :
    Apart (x.calls ++ [.data .body k (n - k)]) ∧
      ∀ a ∈ body_pieces (x.calls ++ [.data .body k (n - k)]), a.1 + a.2 ≤ i + 1 := by
  obtain ⟨-, hbefore⟩ := h.mark k hk
  have hpieces : body_pieces (x.calls ++ [.data .body k (n - k)]) =
      body_pieces x.calls ++ [(k, n - k)] := by
    rw [body_pieces_append]
    rfl
  refine ⟨⟨?_, ?_⟩, ?_⟩
  · rw [hpieces]
    intro a ha
    rcases List.mem_append.mp ha with ha | ha
    · exact h.pos a ha
    · obtain rfl := List.mem_singleton.mp ha
      dsimp only
      omega
  · rw [hpieces, List.pairwise_append]
    refine ⟨h.apart, List.pairwise_singleton _ _, fun a ha b hb => ?_⟩
    obtain rfl := List.mem_singleton.mp hb
    exact hbefore a ha
  · rw [hpieces]
    intro a ha
    rcases List.mem_append.mp ha with ha | ha
    · have hlt := hbefore a ha
      omega
    · obtain rfl := List.mem_singleton.mp ha
      dsimp only
      omega

/-- The body is reported. -/
theorem Pieces.report {n ret : ℕ} (h : Pieces i ph x) (hn : i ≤ n) (hni : n ≤ i + 1)
    (hph : ph = .marked → n = i + 1) :
    Loop.Ends (Pieces i .closed) (fun r => Apart r.2.calls)
      (x.callback_data settings .body n ret) := by
  have hends : ∀ a ∈ body_pieces x.calls, a.1 + a.2 ≤ i + 1 := fun a ha => by
    have hle := h.ends a ha
    split_ifs at hle <;> omega
  unfold Execution.callback_data
  rcases hk : x.marks .body with _ | k
  · refine ⟨h.toApart, fun a ha => ?_, nofun, fun k hk' => ?_⟩
    · rw [if_pos rfl]
      exact hends a ha
    · rw [hk] at hk'
      cases hk'
  · obtain ⟨hlt, -⟩ := h.mark k hk
    have hkn : k < n := by
      rcases hlt with ⟨hmarked, rfl⟩ | hlt
      · rw [hph hmarked]
        exact Nat.lt_succ_self k
      · omega
    obtain ⟨hapart, hends'⟩ := h.add hk hkn hni
    have hclosed : ∀ calls, Apart calls → (∀ a ∈ body_pieces calls, a.1 + a.2 ≤ i + 1) →
        Pieces i .closed { x with marks := Function.update x.marks .body none, calls := calls } :=
      fun calls hcalls hle => ⟨hcalls, fun a ha => by rw [if_pos rfl]; exact hle a ha, nofun,
        fun k hk => by simp at hk⟩
    dsimp only
    split_ifs
    · -- the callback asks for an error
      exact hapart
    · exact hclosed _ hapart hends'
    · -- there is no callback, and the mark is cleared all the same
      exact hclosed _ h.toApart hends

/-- Another field is reported. -/
theorem Pieces.report_other {f : http_data} (hf : f ≠ .body) {n ret : ℕ} (h : Pieces i ph x) :
    Loop.Ends (Pieces i ph) (fun r => Apart r.2.calls) (x.callback_data settings f n ret) := by
  have hpiece : ∀ at_ len, body_pieces (x.calls ++ [.data f at_ len]) = body_pieces x.calls :=
    fun at_ len => body_pieces_concat (piece_data_of_ne hf at_ len) _
  unfold Execution.callback_data
  rcases x.marks f with _ | k
  · exact h
  · dsimp only
    split_ifs
    · exact ((h.congr (y := { x with calls := x.calls ++ [.data f k (n - k)] })
        (hpiece _ _) rfl)).toApart
    · exact h.congr (hpiece _ _) (Function.update_of_ne (Ne.symm hf) _ _)
    · exact h.congr rfl (Function.update_of_ne (Ne.symm hf) _ _)

/-- A callback without data reports no piece, whatever it returns. -/
theorem Pieces.notify {n : http_notify} {ret : ℕ} (h : Pieces i ph x) :
    Loop.Ends (Pieces i ph) (fun r => Apart r.2.calls) (x.callback_notify settings n ret) := by
  have hcall : Pieces i ph { x with calls := x.calls ++ [.notify n] } :=
    h.congr (body_pieces_concat rfl _) rfl
  unfold Execution.callback_notify
  dsimp only
  split_ifs
  · exact hcall.toApart
  · exact hcall
  · exact h

/-- Nor does that for the end of the headers. -/
theorem Pieces.headers_complete {ret : ℕ} (h : Pieces i ph x) :
    Loop.Ends (fun r => Pieces i ph r.2) (fun r => Apart r.2.calls)
      (x.headers_complete settings ret) := by
  have hcall : Pieces i ph { x with calls := x.calls ++ [.headers_complete] } :=
    h.congr (body_pieces_concat rfl _) rfl
  unfold Execution.headers_complete
  dsimp only
  split_ifs
  · exact hcall
  · exact hcall
  · exact hcall.toApart
  · exact h

/-- **A script that keeps the marks in order keeps the pieces apart.** The induction is on the
script. A piece ends with the byte only in the phase `closed`, and from there `Sound` does not
let the script go into another body, so that the next piece begins later. -/
theorem run_pieces {k : Script} {m : Option http_data} (hk : k.Sound m ph) (h : Pieces i ph x) :
    Loop.Ends (fun x => Pieces (i + 1) x.parser.state.phase x ∧ x.parser.http_errno = .HPE_OK)
      (fun r => Apart r.2.calls) (k.run settings i x) := by
  induction k generalizing m ph x with
  | next c =>
    refine ⟨⟨h.toApart, fun a ha => ?_, fun hbefore a ha => ?_, fun k hk' => ?_⟩, hk.1⟩
    · have hle := h.ends a ha
      split_ifs at hle <;> split_ifs <;> omega
    · -- in a body no piece has just been closed
      have hopen : ph ≠ .closed := by
        intro hph
        have hstate : c.state.phase = .before := hbefore
        rw [state.phase, hk.2.2 hph] at hstate
        cases hstate
      have hle := h.ends a ha
      rw [if_neg hopen] at hle
      omega
    · obtain ⟨hlt, hpieces⟩ := h.mark k hk'
      exact ⟨Or.inr (by omega), hpieces⟩
  | error c e => exact h.toApart
  | leave c => exact h.toApart
  | mark f k ih =>
    obtain ⟨-, hph, hk⟩ := hk
    by_cases hf : f = .body
    · subst hf
      obtain rfl := hph rfl
      exact ih hk h.set_mark
    · rw [if_neg hf] at hk
      refine ih hk (h.congr ?_ ?_)
      · unfold Execution.set_mark
        split_ifs <;> rfl
      · unfold Execution.set_mark
        split_ifs
        · exact Function.update_of_ne (Ne.symm hf) _ _
        · rfl
  | reset_nread k ih => exact ih hk (h.congr rfl rfl)
  | callback_data f len er c k ih =>
    obtain ⟨-, hlen, hph, hk⟩ := hk
    have hset : Pieces i ph (x.set c) := h.congr rfl rfl
    by_cases hf : f = .body
    · subst hf
      refine (hset.report (by omega) (by omega) ?_).bind fun x hx => ih hk hx
      intro hmarked
      rcases hph rfl with hbefore | ⟨-, rfl⟩
      · rw [hbefore] at hmarked
        cases hmarked
      · rfl
    · rw [if_neg hf] at hk
      exact (hset.report_other hf).bind fun x hx => ih hk hx
  | callback_notify n er c k ih =>
    have hset : Pieces i ph (x.set c) := h.congr rfl rfl
    exact hset.notify.bind fun x hx => ih hk.2 hx
  | headers_complete c k ih =>
    have hset : Pieces i ph (x.set c) := h.congr rfl rfl
    exact hset.headers_complete.bind fun r hr => ih r.1 (hk.2 r.1) hr

/-- The callbacks behind the loop, for a field that the data ends in. -/
theorem Pieces.leftover {data : Bytes} (h : Pieces data.length ph x) (hph : ph ≠ .marked) :
    Loop.Ends (fun x => Apart x.calls) (fun r => Apart r.2.calls) (leftover settings data x) := by
  refine (h.report_other (by decide)).bind fun x h => ?_
  refine (h.report_other (by decide)).bind fun x h => ?_
  refine (h.report_other (by decide)).bind fun x h => ?_
  refine (h.report (le_refl _) (Nat.le_succ _) fun hm => absurd hm hph).bind fun x h => ?_
  exact (h.report_other (by decide)).mono (fun _ h => h.toApart) fun _ h => h

/-- Between two bytes no script has set a mark. -/
theorem phase_ne_marked (s : state) : s.phase ≠ .marked := by
  unfold state.phase
  split_ifs <;> decide

/-- The plain reading keeps the pieces apart: at its start the mark of the body is not set, since
`start` sets none for a body that an earlier call has begun. -/
theorem bytewise_pieces {parser : http_parser_struct} (data : Bytes)
    (herrno : parser.http_errno = .HPE_OK) :
    Loop.Ends (fun x => Apart x.calls) (fun r => Apart r.2.calls)
      (bytewise.loop settings 0 data (start parser) >>= leftover settings data) := by
  have hstart : Pieces 0 (start parser).parser.state.phase (start parser) := by
    have hnone : (start parser).marks .body = none := by
      unfold start open_field
      dsimp only
      rw [if_neg]
      split <;> decide
    refine ⟨⟨nofun, List.Pairwise.nil⟩, nofun, nofun, fun k hk => ?_⟩
    rw [hnone] at hk
    cases hk
  have hloop : Loop.Ends (fun x => Pieces (0 + data.length) x.parser.state.phase x ∧
      x.parser.http_errno = .HPE_OK) (fun r => Apart r.2.calls)
      (bytewise.loop settings 0 data (start parser)) := by
    refine each_ends (K := fun i (x : Execution) => Pieces i x.parser.state.phase x ∧
      x.parser.http_errno = .HPE_OK) (n := 0 + data.length) ?_ (le_refl _) ⟨hstart, herrno⟩
    rintro i ch x - ⟨hx, herrno⟩
    exact run_pieces (one_byte_sound herrno (Or.inl rfl) ch) (hx.congr (y := x.count) rfl rfl)
  rw [Nat.zero_add] at hloop
  exact hloop.bind fun x hx => hx.1.leftover (phase_ne_marked _)

end Pieces

/-! ## Installed callbacks -/

/-- Whether the callback is installed. -/
def http_parser_settings.installs (settings : http_parser_settings) : ParserCall → Bool
  | .data f _ _ => settings.on_data f
  | .notify n => settings.on_notify n
  | .headers_complete => settings.on_headers_complete

/-- Only callbacks that are installed have been run. -/
def Installed (settings : http_parser_settings) (x : Execution) : Prop :=
  ∀ c ∈ x.calls, settings.installs c

section Installed

variable {settings : http_parser_settings} {x : Execution}

/-- One callback more. -/
theorem Installed.concat (h : Installed settings x) {c : ParserCall} (hc : settings.installs c) :
    ∀ c' ∈ x.calls ++ [c], settings.installs c' := by
  intro c' hc'
  rcases List.mem_append.mp hc' with hc' | hc'
  · exact h c' hc'
  · obtain rfl := List.mem_singleton.mp hc'
    exact hc

/-- A callback for data is run only when it is installed. -/
theorem Installed.callback_data (h : Installed settings x) (f : http_data) (stop ret : ℕ) :
    Loop.Ends (Installed settings) (fun r => Installed settings r.2)
      (x.callback_data settings f stop ret) := by
  unfold Execution.callback_data
  rcases x.marks f with _ | k
  · exact h
  · dsimp only
    split_ifs with hon
    · exact h.concat hon
    · exact h.concat hon
    · exact h

/-- The same for a callback without data. -/
theorem Installed.callback_notify (h : Installed settings x) (n : http_notify) (ret : ℕ) :
    Loop.Ends (Installed settings) (fun r => Installed settings r.2)
      (x.callback_notify settings n ret) := by
  unfold Execution.callback_notify
  dsimp only
  split_ifs with hon
  · exact h.concat hon
  · exact h.concat hon
  · exact h

/-- The same at the end of the headers, where the result says how to go on. -/
theorem Installed.headers_complete (h : Installed settings x) (ret : ℕ) :
    Loop.Ends (fun r => Installed settings r.2) (fun r => Installed settings r.2)
      (x.headers_complete settings ret) := by
  unfold Execution.headers_complete
  dsimp only
  split_ifs with hon
  · exact h.concat hon
  · exact h.concat hon
  · exact h.concat hon
  · exact h

/-- Every script runs installed callbacks only. -/
theorem run_installed (k : Script) (i : ℕ) (h : Installed settings x) :
    Loop.Ends (Installed settings) (fun r => Installed settings r.2) (k.run settings i x) := by
  induction k generalizing x with
  | next c => exact h
  | error c e => exact h
  | leave c => exact h
  | mark f k ih =>
    apply ih
    unfold Execution.set_mark
    split_ifs
    · exact h
    · exact h
  | reset_nread k ih => exact ih h
  | callback_data f len er c k ih =>
    have hset : Installed settings (x.set c) := h
    exact (hset.callback_data f _ _).bind fun x hx => ih hx
  | callback_notify n er c k ih =>
    have hset : Installed settings (x.set c) := h
    exact (hset.callback_notify n _).bind fun x hx => ih hx
  | headers_complete c k ih =>
    have hset : Installed settings (x.set c) := h
    exact (hset.headers_complete _).bind fun r hr => ih r.1 hr

/-- The callbacks behind the loop are installed ones. -/
theorem Installed.leftover (h : Installed settings x) (data : Bytes) :
    Loop.Ends (Installed settings) (fun r => Installed settings r.2)
      (leftover settings data x) := by
  refine (h.callback_data .header_field _ _).bind fun x h => ?_
  refine (h.callback_data .header_value _ _).bind fun x h => ?_
  refine (h.callback_data .url _ _).bind fun x h => ?_
  refine (h.callback_data .body _ _).bind fun x h => ?_
  exact h.callback_data .status _ _

/-- The plain reading as a whole runs installed callbacks only. -/
theorem bytewise_installed (parser : http_parser_struct) (data : Bytes) :
    Loop.Ends (Installed settings) (fun r => Installed settings r.2)
      (bytewise.loop settings 0 data (start parser) >>= leftover settings data) := by
  have hloop : Loop.Ends (Installed settings) (fun r => Installed settings r.2)
      (bytewise.loop settings 0 data (start parser)) :=
    each_ends (K := fun _ => Installed settings) (n := 0 + data.length)
      (fun i ch x _ hx => run_installed (x := x.count) _ i hx) (le_refl _) nofun
  exact hloop.bind fun x hx => hx.leftover data

end Installed

/-! ## The callbacks of one call -/

/-- What holds of the callbacks of the plain reading holds of those of a call, as long as the
headers are not too long: then the two make the same callbacks. -/
theorem execute_calls {settings : http_parser_settings} {parser : http_parser_struct}
    {data : Bytes} {P : List ParserCall → Prop} (hp : Asserts parser.toparser_core)
    (herrno : parser.http_errno = .HPE_OK) (hdata : data ≠ [])
    (hlen : parser.nread + data.length + 1 < 2 ^ 32)
    (hlong : ¬ TooLong settings data 0 (start parser))
    (hbytes : Loop.Ends (fun x : Execution => P x.calls) (fun r : ℕ × Execution => P r.2.calls)
      (bytewise.loop settings 0 data (start parser) >>= leftover settings data)) :
    P (http_parser_execute settings parser data).2.2 := by
  obtain ⟨hover, -⟩ | hsame := http_parser_execute_bytewise settings parser data hp hlen
  · exact absurd hover hlong
  have hcalls : (http_parser_execute settings parser data).2.2 =
      (bytewise settings parser data).2.2 := by rw [hsame]
  rw [hcalls]
  unfold bytewise
  rw [if_neg (not_not_intro herrno)]
  dsimp only
  rw [if_neg hdata]
  rcases hrun : bytewise.loop settings 0 data (start parser) >>= leftover settings data with e | x
  · rw [hrun] at hbytes
    exact hbytes
  · rw [hrun] at hbytes
    exact hbytes

/-- Callbacks of a session, with pieces that do not touch. -/
structure Neat (calls : List ParserCall) : Prop extends Apart calls where
  installed : ∀ c ∈ calls, http_session.parser_settings_.installs c

/-- **The callbacks of a call of a session are neat.** -/
theorem execute_neat {parser : http_parser_struct} {data : Bytes}
    (hp : Asserts parser.toparser_core) (herrno : parser.http_errno = .HPE_OK) (hdata : data ≠ [])
    (hlen : parser.nread + data.length + 1 < 2 ^ 32)
    (hlong : ¬ TooLong http_session.parser_settings_ data 0 (start parser)) :
    Neat (http_parser_execute http_session.parser_settings_ parser data).2.2 :=
  ⟨execute_calls hp herrno hdata hlen hlong (bytewise_pieces data herrno),
    execute_calls (P := fun calls => ∀ c ∈ calls, http_session.parser_settings_.installs c)
      hp herrno hdata hlen hlong (bytewise_installed parser data)⟩

/-- The callbacks behind the first are neat as well. -/
theorem Neat.tail {c : ParserCall} {calls : List ParserCall} (h : Neat (c :: calls)) :
    Neat calls := by
  have hsub : (body_pieces calls).Sublist (body_pieces (c :: calls)) :=
    List.Sublist.filterMap _ (List.sublist_cons_self c calls)
  exact ⟨⟨fun a ha => h.pos a (hsub.subset ha), h.apart.sublist hsub⟩,
    fun c' hc' => h.installed c' (List.mem_cons_of_mem _ hc')⟩

/-- The first of them is a piece in front of all others, or the end of the message: the session
installs no more. -/
theorem Neat.head {c : ParserCall} {calls : List ParserCall} (h : Neat (c :: calls)) :
    (∃ at_ len, c = .data .body at_ len ∧ 0 < len ∧
      ∀ a ∈ body_pieces calls, at_ + len < a.1) ∨ c = .notify .message_complete := by
  have hc := h.installed c List.mem_cons_self
  rcases c with ⟨f, at_, len⟩ | n | _
  · obtain rfl : f = .body := by simpa [http_parser_settings.installs,
      http_session.parser_settings_] using hc
    have hpieces : body_pieces (.data .body at_ len :: calls) = (at_, len) :: body_pieces calls :=
      rfl
    have hpos := h.pos (at_, len) (by rw [hpieces]; exact List.mem_cons_self)
    have hapart := h.apart
    rw [hpieces, List.pairwise_cons] at hapart
    exact Or.inl ⟨at_, len, rfl, hpos, hapart.1⟩
  · obtain rfl : n = .message_complete := by simpa [http_parser_settings.installs,
      http_session.parser_settings_] using hc
    exact Or.inr rfl
  · cases hc

/-- The byte right behind a piece is not reported next. -/
theorem Neat.not_next {calls : List ParserCall} (h : Neat calls) {q : ℕ}
    (hq : ∀ a ∈ body_pieces calls, q < a.1) (es : List ParserEvent) :
    calls.flatMap (ParserCall.events 0) ≠ .data .body q :: es := by
  intro heq
  rcases calls with _ | ⟨c, calls⟩
  · cases heq
  · rcases h.head with ⟨at_, len, rfl, hpos, -⟩ | rfl
    · have hlt : q < at_ := hq (at_, len) List.mem_cons_self
      obtain ⟨n, rfl⟩ : ∃ n, len = n + 1 := ⟨len - 1, by omega⟩
      rw [List.flatMap_cons, ParserCall.events, List.range'_succ, List.map_cons,
        List.cons_append] at heq
      injection heq with hhead
      injection hhead with _ hat
      omega
    · rw [List.flatMap_cons, ParserCall.events, List.singleton_append] at heq
      injection heq with hhead
      cases hhead

/-- Two pieces that report the same bytes first are not of different length. -/
theorem Neat.not_shorter {at_ len len' : ℕ} {calls : List ParserCall} {es : List ParserEvent}
    (h : Neat calls) (hlt : ∀ a ∈ body_pieces calls, at_ + len < a.1)
    (heq : (List.range' at_ len).map (ParserEvent.data .body) ++
        calls.flatMap (ParserCall.events 0) =
      (List.range' at_ len').map (ParserEvent.data .body) ++ es) : len' ≤ len := by
  by_contra hlen
  obtain ⟨n, rfl⟩ : ∃ n, len' = len + (n + 1) := ⟨len' - len - 1, by omega⟩
  rw [← List.range'_append_1, List.map_append, List.append_assoc, List.append_cancel_left_eq,
    List.range'_succ, List.map_cons, List.cons_append] at heq
  exact h.not_next hlt _ heq

/-- **The callbacks are determined by what they report.** The induction is on the callbacks;
a piece is as long as the bytes that follow each other, since the next one does not touch
it. -/
theorem neat_unique {calls calls' : List ParserCall} (h : Neat calls) (h' : Neat calls')
    (hevents : calls.flatMap (ParserCall.events 0) = calls'.flatMap (ParserCall.events 0)) :
    calls = calls' := by
  have hne : ∀ {c : ParserCall} {calls : List ParserCall}, Neat (c :: calls) →
      (c :: calls).flatMap (ParserCall.events 0) ≠ [] := by
    intro c calls h heq
    rcases h.head with ⟨at_, len, rfl, hpos, -⟩ | rfl
    · obtain ⟨n, rfl⟩ : ∃ n, len = n + 1 := ⟨len - 1, by omega⟩
      rw [List.flatMap_cons, ParserCall.events, List.range'_succ] at heq
      cases heq
    · cases heq
  induction calls generalizing calls' with
  | nil =>
    rcases calls' with _ | ⟨c', calls'⟩
    · rfl
    · exact absurd hevents.symm (hne h')
  | cons c calls ih =>
    rcases calls' with _ | ⟨c', calls'⟩
    · exact absurd hevents (hne h)
    · rcases h.head with ⟨at_, len, rfl, hpos, hapart⟩ | rfl
      · obtain ⟨n, rfl⟩ : ∃ n, len = n + 1 := ⟨len - 1, by omega⟩
        rcases h'.head with ⟨at', len', rfl, hpos', hapart'⟩ | rfl
        · -- two pieces: they begin with the same byte, and neither is longer
          obtain ⟨n', rfl⟩ : ∃ n, len' = n + 1 := ⟨len' - 1, by omega⟩
          obtain rfl : at_ = at' := by
            have hhead := congrArg List.head? hevents
            simpa [ParserCall.events, List.range'_succ] using hhead
          simp only [List.flatMap_cons, ParserCall.events, Nat.zero_add] at hevents
          have hle := h.tail.not_shorter hapart hevents
          have hge := h'.tail.not_shorter hapart' hevents.symm
          obtain rfl : n = n' := by omega
          rw [List.append_cancel_left_eq] at hevents
          rw [ih h.tail h'.tail hevents]
        · have hhead := congrArg List.head? hevents
          simp [ParserCall.events, List.range'_succ] at hhead
      · rcases h'.head with ⟨at', len', rfl, hpos', -⟩ | rfl
        · obtain ⟨n', rfl⟩ : ∃ n, len' = n + 1 := ⟨len' - 1, by omega⟩
          have hhead := congrArg List.head? hevents
          simp [ParserCall.events, List.range'_succ] at hhead
        · rw [List.flatMap_cons, List.flatMap_cons, List.append_cancel_left_eq] at hevents
          rw [ih h.tail h'.tail hevents]

/-! ## The parser on a layout -/

/-- The byte is of the body when `mk` holds; `tail` is what the session hears with it. At most
`n` bytes of a header have been counted before it and at most `n'` behind it. -/
def ReadsByte (b : UInt8) (mk : Bool) (tail : List ParserEvent) (c : parser_core) (n : ℕ)
    (c' : parser_core) (n' : ℕ) : Prop :=
  ∀ pos k, k ≤ n → ∃ es k', k' ≤ n' ∧ read_byte pos b ⟨c, k, []⟩ = .ok ⟨c', k', es⟩ ∧
    es.filter http_session.parser_settings_.hears =
      (if mk then [.data .body pos] else []) ++ tail

/-- The parser goes over the bytes of a layout, takes the marked ones for the body, and the
message does not end there. The headers stay short. -/
inductive Reads : Layout → parser_core → ℕ → parser_core → ℕ → Prop where
  | nil (c : parser_core) (n : ℕ) : Reads [] c n c n
  | cons {b : UInt8} {mk : Bool} {l : Layout} {c c₁ c₂ : parser_core} {n n₁ n₂ : ℕ} :
    ReadsByte b mk [] c n c₁ n₁ → 2 * n₁ < HTTP_MAX_HEADER_SIZE → Reads l c₁ n₁ c₂ n₂ →
      Reads ((b, mk) :: l) c n c₂ n₂

/-- The parser goes over the bytes of a layout, and the message ends with the last of
them. -/
def ReadsMessage (l : Layout) (c : parser_core) (n : ℕ) (c' : parser_core) (n' : ℕ) : Prop :=
  ∃ l' b mk c₁ n₁, l = l' ++ [(b, mk)] ∧ Reads l' c n c₁ n₁ ∧
    ReadsByte b mk [.notify .message_complete] c₁ n₁ c' n' ∧ 2 * n' < HTTP_MAX_HEADER_SIZE

section Reads

variable {l l' : Layout} {c c' c₁ : parser_core} {n n' n₁ : ℕ}

/-- The count behind a byte may be given too large. -/
theorem ReadsByte.mono {b : UInt8} {mk : Bool} {tail : List ParserEvent}
    (h : ReadsByte b mk tail c n c' n') (hn : n' ≤ n₁) : ReadsByte b mk tail c n c' n₁ := by
  intro pos k hk
  obtain ⟨es, k', hk', hread⟩ := h pos k hk
  exact ⟨es, k', hk'.trans hn, hread⟩

/-- A layout behind another. -/
theorem Reads.append (h : Reads l c n c₁ n₁) (h' : Reads l' c₁ n₁ c' n') :
    Reads (l ++ l') c n c' n' := by
  induction h with
  | nil c n => exact h'
  | cons hbyte hshort _ ih => exact .cons hbyte hshort (ih h')

/-- A layout, and behind it the end of the message. -/
theorem Reads.message (h : Reads l c n c₁ n₁) (h' : ReadsMessage l' c₁ n₁ c' n') :
    ReadsMessage (l ++ l') c n c' n' := by
  obtain ⟨l'', b, mk, c₂, n₂, rfl, hl'', hbyte⟩ := h'
  exact ⟨l ++ l'', b, mk, c₂, n₂, (List.append_assoc _ _ _).symm, h.append hl'', hbyte⟩

/-- The parser between two parts of a layout. -/
theorem Reads.split (h : Reads (l ++ l') c n c' n') :
    ∃ c₁ n₁, Reads l c n c₁ n₁ ∧ Reads l' c₁ n₁ c' n' := by
  induction l generalizing c n with
  | nil => exact ⟨c, n, .nil c n, h⟩
  | cons e l ih =>
    rw [List.cons_append] at h
    cases h with
    | cons hbyte hshort hrest =>
      obtain ⟨c₁, n₁, hl, hl'⟩ := ih hrest
      exact ⟨c₁, n₁, .cons hbyte hshort hl, hl'⟩

/-- The first part of a message, with more to come. -/
theorem ReadsMessage.split (h : ReadsMessage (l ++ l') c n c' n') (hne : l' ≠ []) :
    ∃ c₁ n₁, Reads l c n c₁ n₁ ∧ ReadsMessage l' c₁ n₁ c' n' := by
  obtain ⟨l'', b, mk, c₂, n₂, heq, hl'', hbyte⟩ := h
  obtain ⟨l₂, e, rfl⟩ : ∃ l₂ e, l' = l₂ ++ [e] :=
    ⟨l'.dropLast, l'.getLast hne, (List.dropLast_append_getLast hne).symm⟩
  rw [← List.append_assoc] at heq
  obtain ⟨rfl, hlast⟩ := List.append_inj' heq rfl
  obtain rfl := List.singleton_inj.mp hlast
  obtain ⟨c₁, n₁, hl, hl₂⟩ := hl''.split
  exact ⟨c₁, n₁, hl, l₂, b, mk, c₂, n₂, rfl, hl₂, hbyte⟩

/-- The count behind a layout stays below the limit. -/
theorem Reads.short (h : Reads l c n c' n') (hn : 2 * n < HTTP_MAX_HEADER_SIZE) :
    2 * n' < HTTP_MAX_HEADER_SIZE := by
  induction h with
  | nil c n => exact hn
  | cons _ hshort _ ih => exact ih hshort

/-- Without a byte the headers are no longer. -/
theorem Short.nil {pos : ℕ} {r : ParserReport} (h : 2 * r.nread < HTTP_MAX_HEADER_SIZE) :
    Short pos r [] := by
  intro k r' hread
  rw [List.take_nil] at hread
  obtain rfl := Except.ok.inj hread
  exact h

/-- The headers stay short over a byte and what is behind it. -/
theorem Short.cons {pos : ℕ} {b : UInt8} {bs : Bytes} {r r' : ParserReport}
    (h : 2 * r.nread < HTTP_MAX_HEADER_SIZE) (hread : read_byte pos b r = .ok r')
    (hrest : Short (pos + 1) r' bs) : Short pos r (b :: bs) := by
  intro k r'' hread'
  rcases k with _ | k
  · obtain rfl := Except.ok.inj hread'
    exact h
  · rw [List.take_succ_cons, read_bytes, each, hread] at hread'
    exact hrest k r'' hread'

/-- What has been reported does not make the headers longer. -/
theorem Short.behind {pos : ℕ} {data : Bytes} {r : ParserReport} (h : Short pos r data)
    (es : List ParserEvent) : Short pos (r.behind es) data := by
  intro k r' hread
  rw [read_bytes_behind] at hread
  rcases hr : read_bytes pos (data.take k) r with s | r₁
  · rw [hr] at hread
    cases hread
  · rw [hr] at hread
    obtain rfl := Except.ok.inj hread
    exact h k r₁ hr

/-- One byte, and the bytes behind it. -/
theorem read_bytes_cons {pos k k₁ : ℕ} {b : UInt8} {bs : Bytes} {es : List ParserEvent}
    (h : read_byte pos b ⟨c, k, []⟩ = .ok ⟨c₁, k₁, es⟩) :
    read_bytes pos (b :: bs) ⟨c, k, []⟩ = behind es (read_bytes (pos + 1) bs ⟨c₁, k₁, []⟩) := by
  rw [← read_bytes_behind, read_bytes, each, h]
  simp only [ParserReport.behind, List.append_nil]
  rfl

/-- The session hears of the marked bytes, each at its place, and of nothing else. The induction
is on the layout; the count goes with it. -/
theorem Reads.read (h : Reads l c n c' n') (hn : 2 * n < HTTP_MAX_HEADER_SIZE) (pos : ℕ) :
    ∀ k ≤ n, ∃ es k', k' ≤ n' ∧
      read_bytes pos (elements l) ⟨c, k, []⟩ = .ok ⟨c', k', es⟩ ∧
      Short pos ⟨c, k, []⟩ (elements l) ∧
      es.filter http_session.parser_settings_.hears =
        (positions pos l).map (ParserEvent.data .body) := by
  induction h generalizing pos with
  | nil c n => exact fun k hk => ⟨[], k, hk, rfl, .nil (by dsimp only; omega), rfl⟩
  | @cons b mk l c c₁ c₂ n n₁ n₂ hbyte hshort _ ih =>
    intro k hk
    obtain ⟨es, k₁, hk₁, hread, hes⟩ := hbyte pos k hk
    obtain ⟨es', k', hk', hread', hshort', hes'⟩ := ih hshort (pos + 1) k₁ hk₁
    have hcons : elements ((b, mk) :: l) = b :: elements l := rfl
    refine ⟨es ++ es', k', hk', ?_, ?_, ?_⟩
    · rw [hcons, read_bytes_cons hread, hread']
      rfl
    · rw [hcons]
      refine .cons (by dsimp only; omega) hread ?_
      have hbehind := hshort'.behind es
      simp only [ParserReport.behind, List.append_nil] at hbehind
      exact hbehind
    · rw [List.filter_append, hes, hes', List.append_nil]
      rcases mk <;> rfl

/-- And of the end of the message, behind all of them. -/
theorem ReadsMessage.read (h : ReadsMessage l c n c' n') (hn : 2 * n < HTTP_MAX_HEADER_SIZE)
    (pos : ℕ) :
    ∀ k ≤ n, ∃ es k', k' ≤ n' ∧
      read_bytes pos (elements l) ⟨c, k, []⟩ = .ok ⟨c', k', es⟩ ∧
      Short pos ⟨c, k, []⟩ (elements l) ∧
      es.filter http_session.parser_settings_.hears =
        (positions pos l).map (ParserEvent.data .body) ++ [.notify .message_complete] := by
  intro k hk
  obtain ⟨l', b, mk, c₁, n₁, rfl, hl', hbyte, hshort⟩ := h
  obtain ⟨es, k₁, hk₁, hread, hshort₁, hes⟩ := hl'.read hn pos k hk
  obtain ⟨es', k', hk', hread', hes'⟩ := hbyte (pos + l'.length) k₁ hk₁
  have hlast : elements [(b, mk)] = [b] := rfl
  have hq : (⟨c₁, k₁, es⟩ : ParserReport) = ParserReport.behind es ⟨c₁, k₁, []⟩ := by
    simp only [ParserReport.behind, List.append_nil]
  have hall : read_bytes pos (elements (l' ++ [(b, mk)])) ⟨c, k, []⟩ =
      .ok ⟨c', k', es ++ es'⟩ := by
    rw [elements_append, read_bytes_append, hread, length_elements, hlast]
    show read_bytes (pos + l'.length) [b] ⟨c₁, k₁, es⟩ = _
    rw [hq, read_bytes_behind, read_bytes, each_singleton, hread']
    rfl
  refine ⟨es ++ es', k', hk', hall, fun j r' hj => ?_, ?_⟩
  · by_cases hle : j ≤ (elements l').length
    · rw [elements_append, List.take_append_of_le_length hle] at hj
      exact hshort₁ j r' hj
    · rw [List.take_of_length_le, hall] at hj
      · obtain rfl := Except.ok.inj hj
        dsimp only
        omega
      · rw [elements_append, List.length_append, hlast, List.length_singleton]
        omega
  · have hpositions : positions pos (l' ++ [(b, mk)]) =
        positions pos l' ++ positions (pos + l'.length) [(b, mk)] := positions_append _ _ _
    rw [List.filter_append, hes, hes', hpositions, List.map_append, List.append_assoc]
    rcases mk <;> rfl

end Reads

/-! ## The callbacks of a session -/

/-- The callbacks for the runs of a layout: what a session is to hear. -/
def run_calls (l : Layout) : List ParserCall :=
  (runs 0 l).map fun r => .data .body r.off r.data.length

/-- Their pieces are the runs. -/
theorem body_pieces_run_calls (l : Layout) :
    body_pieces (run_calls l) = (runs 0 l).map fun r => (r.off, r.data.length) := by
  unfold body_pieces run_calls
  rw [List.filterMap_map, ← List.filterMap_eq_map]
  rfl

/-- Runs are not empty and do not touch, so these callbacks are neat. -/
theorem neat_run_calls (l : Layout) : Neat (run_calls l) := by
  refine ⟨⟨?_, ?_⟩, ?_⟩
  · rw [body_pieces_run_calls]
    intro a ha
    obtain ⟨r, hr, rfl⟩ := List.mem_map.mp ha
    exact List.length_pos_iff.mpr (runs_ne_nil hr)
  · rw [body_pieces_run_calls, List.pairwise_map]
    exact runs_apart 0 l
  · intro c hc
    obtain ⟨r, -, rfl⟩ := List.mem_map.mp hc
    rfl

/-- They are so with the end of the message behind them, too. -/
theorem neat_run_calls_complete (l : Layout) :
    Neat (run_calls l ++ [.notify .message_complete]) := by
  have hneat := neat_run_calls l
  have hpieces : body_pieces (run_calls l ++ [.notify .message_complete]) =
      body_pieces (run_calls l) := body_pieces_concat rfl _
  refine ⟨⟨?_, ?_⟩, ?_⟩
  · rw [hpieces]
    exact hneat.pos
  · rw [hpieces]
    exact hneat.apart
  · intro c hc
    rcases List.mem_append.mp hc with hc | hc
    · exact hneat.installed c hc
    · obtain rfl := List.mem_singleton.mp hc
      rfl

/-- They report the marked bytes. -/
theorem events_run_calls (l : Layout) :
    (run_calls l).flatMap (ParserCall.events 0) = (positions 0 l).map (ParserEvent.data .body) := by
  rw [← flatMap_range'_runs, List.map_flatMap, run_calls, List.flatMap_map]
  simp only [ParserCall.events, Nat.zero_add]

/-- To a session they are the callbacks of `body_calls`. -/
theorem callbacks_run_calls (l : Layout) :
    (run_calls l).filterMap ParserCall.callback = body_calls l := by
  unfold run_calls body_calls
  rw [List.filterMap_map, ← List.filterMap_eq_map]
  rfl

section Feed

variable {l : Layout} {parser : http_parser_struct} {c' : parser_core} {n n' : ℕ}

/-- A read whose callbacks are known by what they report. The parser makes neat callbacks, and so
are the ones given; `neat_unique` says that they are the same. -/
theorem http_execute {calls : List ParserCall} {es : List ParserEvent} (hcalls : Neat calls)
    (hread : read_bytes 0 (elements l) ⟨parser.toparser_core, n, []⟩ = .ok ⟨c', n', es⟩)
    (hes : es.filter http_session.parser_settings_.hears = calls.flatMap (ParserCall.events 0))
    (hp : Asserts parser.toparser_core) (herrno : parser.http_errno = .HPE_OK) (hl : l ≠ [])
    (hlen : l.length < 2 ^ 31) (hn : parser.nread ≤ 2 * n)
    (hshort : Short 0 ⟨parser.toparser_core, n, []⟩ (elements l)) :
    ∃ parser' : http_parser_struct,
      HttpParser.http.http_parser_execute parser (elements l) =
        (parser', calls.filterMap ParserCall.callback) ∧
      parser'.toparser_core = c' ∧ Asserts c' ∧ c'.http_errno = .HPE_OK ∧
      parser'.nread ≤ 2 * n' := by
  have hmax : HTTP_MAX_HEADER_SIZE < 2 ^ 30 := by decide
  have hnread := hshort.nread
  dsimp only at hnread
  have hdata : elements l ≠ [] := by
    rw [← List.length_pos_iff, length_elements]
    exact List.length_pos_iff.mpr hl
  rw [← length_elements l] at hlen
  have hcall := @execute_read http_session.parser_settings_ _ (fun _ => rfl) 0 _ _ hp herrno hdata
    hlen hn hshort
  rw [hread] at hcall
  obtain ⟨-, hparser, hok, hevents, hcount⟩ := hcall
  have hneat := execute_neat hp herrno hdata (by omega)
    (hshort.not_tooLong (fun _ => rfl) herrno hn)
  have hsame := neat_unique hneat hcalls (hevents.trans hes)
  refine ⟨_, ?_, hparser, read_bytes_asserts hp hread, hok, hcount⟩
  rw [← hsame]
  rfl

/-- A read that does not end the message. -/
theorem Reads.execute (h : Reads l parser.toparser_core n c' n')
    (hp : Asserts parser.toparser_core) (herrno : parser.http_errno = .HPE_OK) (hl : l ≠ [])
    (hlen : l.length < 2 ^ 31) (hn : parser.nread ≤ 2 * n)
    (hshort : 2 * n < HTTP_MAX_HEADER_SIZE) :
    ∃ parser' : http_parser_struct,
      HttpParser.http.http_parser_execute parser (elements l) = (parser', body_calls l) ∧
      parser'.toparser_core = c' ∧ Asserts c' ∧ c'.http_errno = .HPE_OK ∧
      parser'.nread ≤ 2 * n' := by
  obtain ⟨es, k', hk', hread, hshort', hes⟩ := h.read hshort 0 n (le_refl n)
  rw [← callbacks_run_calls]
  obtain ⟨parser', hexec, hparser', hasserts, hok, hcount⟩ := http_execute (neat_run_calls l)
    hread (hes.trans (events_run_calls l).symm) hp herrno hl hlen hn hshort'
  exact ⟨parser', hexec, hparser', hasserts, hok, by omega⟩

/-- The read that ends the message. -/
theorem ReadsMessage.execute (h : ReadsMessage l parser.toparser_core n c' n')
    (hp : Asserts parser.toparser_core) (herrno : parser.http_errno = .HPE_OK) (hl : l ≠ [])
    (hlen : l.length < 2 ^ 31) (hn : parser.nread ≤ 2 * n)
    (hshort : 2 * n < HTTP_MAX_HEADER_SIZE) :
    ∃ parser' : http_parser_struct,
      HttpParser.http.http_parser_execute parser (elements l) =
        (parser', body_calls l ++ [.on_message_complete]) ∧
      parser'.toparser_core = c' ∧ Asserts c' ∧ c'.http_errno = .HPE_OK ∧
      parser'.nread ≤ 2 * n' := by
  obtain ⟨es, k', hk', hread, hshort', hes⟩ := h.read hshort 0 n (le_refl n)
  have hcalls : body_calls l ++ [.on_message_complete] =
      (run_calls l ++ [ParserCall.notify .message_complete]).filterMap ParserCall.callback := by
    rw [List.filterMap_append, callbacks_run_calls]
    rfl
  have hevents : es.filter http_session.parser_settings_.hears =
      (run_calls l ++ [ParserCall.notify .message_complete]).flatMap (ParserCall.events 0) := by
    rw [hes, List.flatMap_append, events_run_calls]
    rfl
  rw [hcalls]
  obtain ⟨parser', hexec, hparser', hasserts, hok, hcount⟩ :=
    http_execute (neat_run_calls_complete l) hread hevents hp herrno hl hlen hn hshort'
  exact ⟨parser', hexec, hparser', hasserts, hok, by omega⟩

/-- **The reads of a message.** However its bytes arrive, a session hears of the runs of body
bytes in each read, and of the end of the message with the last. The induction is on the reads;
from each to the next go the parser and the bound for its count. -/
theorem ReadsMessage.feed {segs : List Layout} (hsegs : ∀ seg ∈ segs, seg ≠ [])
    (hlen : ∀ seg ∈ segs, seg.length < 2 ^ 31) :
    ∀ (parser : http_parser_struct) (n : ℕ),
      ReadsMessage segs.flatten parser.toparser_core n c' n' →
      Asserts parser.toparser_core → parser.http_errno = .HPE_OK →
      parser.nread ≤ 2 * n → 2 * n < HTTP_MAX_HEADER_SIZE →
      HttpParser.http.feed parser (segs.map elements) = reported segs := by
  induction segs with
  | nil =>
    intro parser n h
    obtain ⟨l', b, mk, c₁, n₁, heq, -⟩ := h
    exact absurd heq.symm (List.append_ne_nil_of_right_ne_nil _ (List.cons_ne_nil _ _))
  | cons seg segs ih =>
    intro parser n h hp herrno hn hshort
    have hseg : seg ≠ [] := hsegs seg List.mem_cons_self
    have hfits : seg.length < 2 ^ 31 := hlen seg List.mem_cons_self
    rcases segs with _ | ⟨seg', segs⟩
    · rw [List.flatten_cons, List.flatten_nil, List.append_nil] at h
      obtain ⟨parser', hexec, -⟩ := h.execute hp herrno hseg hfits hn hshort
      show [(HttpParser.http.http_parser_execute parser (elements seg)).2] = _
      rw [hexec]
      rfl
    · have hrest : (seg' :: segs).flatten ≠ [] := by
        rw [List.flatten_cons]
        exact fun hnil => hsegs seg' (by simp) (List.append_eq_nil_iff.mp hnil).1
      rw [List.flatten_cons] at h
      obtain ⟨c₁, n₁, hread, hmessage⟩ := h.split hrest
      obtain ⟨parser', hexec, hparser', hasserts, hok, hcount⟩ :=
        hread.execute hp herrno hseg hfits hn hshort
      show (HttpParser.http.http_parser_execute parser (elements seg)).2 ::
        HttpParser.http.feed (HttpParser.http.http_parser_execute parser (elements seg)).1
          ((seg' :: segs).map elements) = _
      rw [hexec, reported]
      subst hparser'
      rw [ih (fun t ht => hsegs t (List.mem_cons_of_mem _ ht))
        (fun t ht => hlen t (List.mem_cons_of_mem _ ht)) parser' n₁ hmessage hasserts hok hcount
        (hread.short hshort)]

end Feed

end MyWarehouse
