import MiniLang.Proofs.Faults
import MiniLang.Proofs.Grammar.Sound
import MiniLang.Session
/-!
# Parsing again after a fault

A call of `parse` that fails leaves the session where it has come to, and the next one goes on from
there.  As long as the lexical fault of a source text has not come out, it is still ahead, and no
call returns a program.  The call that meets it leaves the last two tokens in view and a stream that
has ended, so from then on the session is one on these two tokens alone
(`Session.run_parse_of_fault`): the fault is forgotten, and what is left of the text may be read as
a program, which is then empty or an empty block.
-/

set_option autoImplicit false

namespace MiniLang

open Window

/-! ## Where reading ends -/

/-- Reading tokens that a fault ends has two tokens in view, until it meets the fault with the last
two of them. -/
def meeting (e : LexicalFault) (ts : List Token) : Lockstep where
  level w w' := w = w' ∧ ∃ read rest, ts = read ++ rest ∧ 2 ≤ rest.length ∧
    w = front rest (some e)
  apart o _ :=
    (∃ fault read rest, ts = read ++ rest ∧ 2 ≤ rest.length ∧ fault.isLexical = false ∧
      o = .fail fault (front rest (some e))) ∨
      ∃ read u v, ts = read ++ [u, v] ∧ o = .fail (.lexical e) (facing [u, v])
  same_view := by
    rintro w _ ⟨rfl, _⟩
    exact ⟨rfl, rfl⟩
  complain := by
    rintro α w _ ⟨rfl, read, rest, hts, hlen, rfl⟩ complaint
    exact .inl ⟨_, read, rest, hts, hlen, by cases complaint <;> rfl, rfl⟩
  advance := by
    rintro w _ ⟨rfl, read, rest, hts, hlen, rfl⟩ _
    match rest, hlen with
    | [u, v], _ => exact .inr (.inr ⟨read, u, v, hts, advance_front_fault⟩)
    | t :: u :: v :: rest, _ =>
      refine .inl ⟨_, _, advance_front, advance_front, rfl, read ++ [t], u :: v :: rest, ?_, ?_,
        rfl⟩
      · simpa using hts
      · simp
  stay := by
    rintro α β _ _ go (⟨fault, read, rest, hts, hlen, hf, rfl⟩ | ⟨read, u, v, hts, rfl⟩) _
    · exact .inl ⟨fault, read, rest, hts, hlen, hf, rfl⟩
    · exact .inr ⟨read, u, v, hts, rfl⟩

/-- A fault of some tokens themselves: a complaint, or that of one of them with too many digits. -/
def Fault.IsOf (ts : List Token) (fault : Fault) : Prop :=
  fault.IsComplaint ∨ ∃ t ∈ ts, fault.IsOverflowOf t

theorem Fault.IsOf.mono {ts us : List Token} {fault : Fault} (h : fault.IsOf us) (hs : us ⊆ ts) :
    fault.IsOf ts :=
  h.imp_right fun ⟨t, ht, hoverflow⟩ => ⟨t, hs ht, hoverflow⟩

theorem mem_of_front {ts : List Token} {fault : Option LexicalFault} {t : Token}
    (h : (front ts fault).Holds t) : t ∈ ts := by
  match ts with
  | [] => simp [Holds, front] at h
  | [_] => simpa [Holds, front] using h
  | _ :: _ :: _ => simpa [Holds, front] using h

/-- Tokens that a fault ends are no program.  A fault of their own comes out with the other one
still ahead, or the other one comes out and the last two tokens stay in view. -/
theorem program_front_cases (e : LexicalFault) {ts : List Token} (h : 2 ≤ ts.length) :
    (∃ fault read rest, ts = read ++ rest ∧ 2 ≤ rest.length ∧ fault.IsOf ts ∧
      (front ts (some e)).program = .fail fault (front rest (some e))) ∨
      ∃ read u v, ts = read ++ [u, v] ∧
        (front ts (some e)).program = .fail (.lexical e) (facing [u, v]) := by
  have hrun : (meeting e ts).Agree (front ts (some e)).program (front ts (some e)).program :=
    Lockstep.run_program ⟨rfl, [], ts, rfl, h, rfl⟩
  generalize ho : (front ts (some e)).program = o at hrun ⊢
  cases hrun with
  | level hl =>
    -- a program ends where no token is in view
    obtain ⟨_, read, rest, _, hlen, rfl⟩ := hl
    have hc := current_of_readItems ho
    rw [front, List.getElem?_eq_none_iff] at hc
    omega
  | apart ha =>
    rcases ha with ⟨fault, read, rest, hts, hlen, hf, rfl⟩ | hmet
    · rcases fault_of_readItems ho with hc | ⟨e', _, rfl⟩ | ⟨t, ht, hoverflow⟩
      · exact .inl ⟨fault, read, rest, hts, hlen, .inl hc, rfl⟩
      · cases hf
      · exact .inl ⟨fault, read, rest, hts, hlen, .inr ⟨t, mem_of_front ht, hoverflow⟩, rfl⟩
    · exact .inr hmet

namespace Session

/-- A call has failed with a fault of some tokens themselves. -/
def Complains (ts : List Token) (reply : Except Fault Answer × Session) : Prop :=
  ∃ fault, reply.1 = .error fault ∧ fault.IsOf ts

theorem Complains.mono {ts us : List Token} (hs : us ⊆ ts) (reply : Except Fault Answer × Session)
    (h : Complains us reply) : Complains ts reply := by
  obtain ⟨fault, hreply, hfault⟩ := h
  exact ⟨fault, hreply, hfault.mono hs⟩

theorem call_parse_of_fail {session : Session} {fault : Fault} {w : Window}
    (h : session.window.program = .fail fault w) :
    session.call .parse = (.error fault, ⟨w, session.remembered⟩) := by
  simp only [call, reply, h]
  rfl

/-- Calls of `parse` on tokens that a fault ends fail with faults of the tokens themselves up to the
one that meets that fault, and those after it are made on the last two tokens. -/
theorem run_parse_of_front {e : LexicalFault} {ts : List Token} (h : 2 ≤ ts.length)
    (remembered : Option Node) (n : Nat) :
    (∀ reply ∈ run ⟨front ts (some e), remembered⟩ (List.replicate n .parse),
        Complains ts reply) ∨
      ∃ read u v failed k, ts = read ++ [u, v] ∧ n = failed.length + 1 + k ∧
        (∀ reply ∈ failed, Complains ts reply) ∧
        run ⟨front ts (some e), remembered⟩ (List.replicate n .parse) =
          failed ++ (.error (.lexical e), ⟨facing [u, v], remembered⟩) ::
            run ⟨facing [u, v], remembered⟩ (List.replicate k .parse) := by
  induction n generalizing ts with
  | zero => exact .inl (by simp [run])
  | succ n ih =>
    rw [List.replicate_succ, run]
    rcases program_front_cases e h with
      ⟨fault, read, rest, hts, hlen, hc, hp⟩ | ⟨read, u, v, hts, hp⟩
    · have hfirst : Complains ts (.error fault, ⟨front rest (some e), remembered⟩) :=
        ⟨fault, rfl, hc⟩
      have hmore : ∀ reply, Complains rest reply → Complains ts reply :=
        Complains.mono (hts ▸ List.subset_append_right read rest)
      rw [@call_parse_of_fail ⟨front ts (some e), remembered⟩ _ _ hp]
      rcases ih hlen with hall | ⟨read', u, v, failed, k, hrest, hn, hfailed, hrun⟩
      · exact .inl (List.forall_mem_cons.2 ⟨hfirst, fun reply hr => hmore reply (hall reply hr)⟩)
      · have hall := List.forall_mem_cons.2 ⟨hfirst, fun reply hr => hmore reply (hfailed reply hr)⟩
        refine .inr ⟨read ++ read', u, v, _ :: failed, k, ?_, ?_, hall, congrArg _ hrun⟩
        · rw [hts, hrest, List.append_assoc]
        · rw [List.length_cons, hn]
          omega
    · rw [@call_parse_of_fail ⟨front ts (some e), remembered⟩ _ _ hp]
      refine .inr ⟨read, u, v, [], n, hts, ?_, by simp, rfl⟩
      rw [List.length_nil]
      omega

end Session

/-! ## Programs of two tokens -/

namespace Grammar

variable {G : Grammar}

/-- An expression has an odd number of tokens: an operand, parentheses in pairs, and an operator
between two expressions. -/
theorem Expression.odd_length {level : Level} {ts : List Token} {n : Node}
    (h : G.Expression level ts n) : ts.length % 2 = 1 := by
  induction h with
  | operand => rfl
  | enclosed _ _ _ ih =>
    rw [List.length_cons, List.length_append, List.length_singleton]
    omega
  | single _ ih => exact ih
  | operation _ _ _ ihl ihr =>
    rw [List.length_append, List.length_cons]
    omega

theorem Enclosed.two_le {part : List Token → Node → Prop} {ts : List Token} {ns : List Node}
    (h : Enclosed part ts ns) : 2 ≤ ts.length := by
  cases h <;> simp

theorem Call.three_le {ts : List Token} {n : Node} (h : G.Call ts n) : 3 ≤ ts.length := by
  cases h with
  | mk _ ha =>
    have := ha.two_le
    rw [List.length_cons]
    omega

theorem Condition.three_le {ts : List Token} {n : Node} (h : G.Condition ts n) :
    3 ≤ ts.length := by
  cases h
  simp

theorem Signature.three_le {ts : List Token} {name : Node} {ps : List Node}
    (h : Signature ts name ps) : 3 ≤ ts.length := by
  cases h with
  | mk _ hp =>
    have := hp.two_le
    rw [List.length_cons]
    omega

/-- What is derived from few tokens: from none, the body of a block without statements, and from
two, an empty block.  No statement is derived from fewer. -/
def IsShort : Form → List Token → List Node → Prop
  | .body, ts, ns => ts = [] → ns = []
  | _, ts, ns => 2 ≤ ts.length ∧ (ts.length = 2 → ns = [.block []])

theorem isShort_statement {ts : List Token} {ns : List Node} (h : 3 ≤ ts.length) :
    IsShort .statement ts ns :=
  ⟨Nat.le_of_succ_le h, fun h₂ => by omega⟩

theorem Derives.isShort {form : Form} {ts : List Token} {ns : List Node}
    (h : G.Derives form ts ns) : IsShort form ts ns := by
  induction h with
  | returning _ he _ =>
    have := he.odd_length
    refine isShort_statement ?_
    simp only [List.length_cons, List.length_append, List.length_nil]
    omega
  | conditional hc _ _ =>
    have := hc.three_le
    refine isShort_statement ?_
    rw [List.length_append]
    omega
  | alternative hc _ _ _ _ _ =>
    have := hc.three_le
    refine isShort_statement ?_
    rw [List.length_append]
    omega
  | declaration _ hs _ _ =>
    have := hs.three_le
    refine isShort_statement ?_
    rw [List.length_cons, List.length_append]
    omega
  | nested _ ih => exact ih
  | assignedCall _ _ hc =>
    have := hc.three_le
    refine isShort_statement ?_
    rw [List.length_cons, List.length_cons]
    omega
  | assignment _ _ he _ =>
    have := he.odd_length
    refine isShort_statement ?_
    rw [List.length_cons, List.length_cons]
    omega
  | call hc => exact isShort_statement hc.three_le
  | expression _ _ he =>
    have := he.odd_length
    refine isShort_statement ?_
    rw [List.length_cons, List.length_cons] at this ⊢
    omega
  | @block l r ts ns _ _ _ ih =>
    refine ⟨by simp, fun h₂ => ?_⟩
    have hts : ts = [] := List.length_eq_zero_iff.1 (by simpa using h₂)
    rw [ih hts]
  | empty => exact fun _ => rfl
  | separator => exact fun h => by cases h
  | next _ _ _ ih _ =>
    intro h
    rw [(List.append_eq_nil_iff.1 h).1] at ih
    exact absurd ih.1 (by simp)

theorem Items.eq_nil {behind : Bool} {ns : List Node} (h : G.Items behind [] ns) : ns = [] := by
  generalize hts : [] = ts at h
  cases h with
  | empty => rfl
  | separator => cases hts
  | statement hd =>
    have := hd.isShort.1
    rw [(List.append_eq_nil_iff.1 hts.symm).1] at this
    exact absurd this (by simp)
  | declaration => cases hts

/-- Two tokens at most have no items but an empty block. -/
theorem Items.eq_of_short {behind : Bool} {ts : List Token} {ns : List Node}
    (h : G.Items behind ts ns) (hlen : ts.length ≤ 2) : ns = [] ∨ ns = [.block []] := by
  induction h with
  | empty => exact .inl rfl
  | separator _ _ ih => exact ih (Nat.le_of_succ_le hlen)
  | @statement _ ts us n ns hd _ _ hs _ =>
    obtain ⟨hts, hn⟩ := hd.isShort
    rw [List.length_append] at hlen
    have hus : us = [] := List.length_eq_zero_iff.1 (by omega)
    subst hus
    rw [hs.eq_nil]
    exact .inr (hn (Nat.le_antisymm (by simpa using hlen) hts))
  | declaration _ hg _ _ _ =>
    have := hg.three_le
    rw [List.length_append, List.length_cons, List.length_append] at hlen
    omega

end Grammar

/-- A program that is read from two tokens at most is empty, or an empty block. -/
theorem program_of_short {ts : List Token} (hl : ∀ t ∈ ts, t.Lexical) (hlen : ts.length ≤ 2)
    {p : Node} {w : Window} (h : (facing ts).program = .ok p w) :
    w = facing [] ∧ (p = .program [] ∨ p = .program [.block []]) := by
  rw [Window.program_eq] at h
  obtain ⟨ns, rfl, hw, hitems⟩ := Grammar.sound_items hl h
  refine ⟨hw, ?_⟩
  rcases hitems.eq_of_short hlen with rfl | rfl
  · exact .inl rfl
  · exact .inr rfl

namespace Session

/-- Calls of `parse` on two tokens at most return no other programs. -/
theorem run_parse_of_short {ts : List Token} (hl : ∀ t ∈ ts, t.Lexical) (hlen : ts.length ≤ 2)
    (remembered : Option Node) (k : Nat) :
    ∀ reply ∈ run ⟨facing ts, remembered⟩ (List.replicate k .parse), ∀ answer,
      reply.1 = .ok answer →
        answer = .node (.program []) ∨ answer = .node (.program [.block []]) := by
  induction k generalizing ts remembered with
  | zero => simp [run]
  | succ k ih =>
    rw [List.replicate_succ, run]
    cases hp : (facing ts).program with
    | fail fault w =>
      obtain ⟨read, rest, rfl, rfl⟩ := exists_rest_of_fail hp
      rw [@call_parse_of_fail ⟨facing (read ++ rest), remembered⟩ _ _ hp]
      refine List.forall_mem_cons.2 ⟨by simp, ih (fun t ht => ?_) ?_ _⟩
      · exact hl t (List.mem_append_right _ ht)
      · rw [List.length_append] at hlen
        omega
    | ok p w =>
      obtain ⟨rfl, hprogram⟩ := program_of_short hl hlen hp
      have hcall : call ⟨facing ts, remembered⟩ .parse = (.ok (.node p), ⟨facing [], some p⟩) := by
        simp only [call, reply, hp]
        rfl
      rw [hcall]
      refine List.forall_mem_cons.2 ⟨?_, ih (by simp) (by simp) _⟩
      rintro answer ⟨⟩
      rcases hprogram with rfl | rfl
      · exact .inl rfl
      · exact .inr rfl

/-- The session of a source text with a lexical fault shows two tokens at least. -/
theorem front_of_start {source : String} {e : LexicalFault} {session : Session}
    (he : (tokenize source).fault = some e) (hs : start (.ofSource source) = .ok session) :
    2 ≤ (tokenize source).tokens.length ∧
      session = ⟨front (tokenize source).tokens (some e), none⟩ := by
  unfold Stream.ofSource at hs
  rw [he] at hs
  generalize (tokenize source).tokens = ts at hs ⊢
  match ts with
  | [] => cases hs
  | [_] => cases hs
  | _ :: _ :: _ =>
    cases hs
    exact ⟨by simp, rfl⟩

/-- Calls of `parse` on a source text with a lexical fault, however many: they fail with complaints,
or with the fault of a token that has too many digits, until one of them meets the lexical fault,
and those after it answer as on a list of the last two tokens before the fault and nothing else.  So
no call returns a program unless one before it has failed with the lexical fault, and then the
program is empty, or an empty block. -/
theorem run_parse_of_fault {source : String} {e : LexicalFault} {session : Session}
    (he : (tokenize source).fault = some e) (hs : start (.ofSource source) = .ok session) :
    ∃ read u v truncated, (tokenize source).tokens = read ++ [u, v] ∧
      start (.ofTokens [some u, some v]) = .ok truncated ∧
      (∀ n, (∀ reply ∈ session.run (List.replicate n .parse),
          Complains (tokenize source).tokens reply) ∨
        ∃ failed k, n = failed.length + 1 + k ∧
          (∀ reply ∈ failed, Complains (tokenize source).tokens reply) ∧
          session.run (List.replicate n .parse) =
            failed ++ (.error (.lexical e), truncated) ::
              truncated.run (List.replicate k .parse)) ∧
      ∀ k, ∀ reply ∈ truncated.run (List.replicate k .parse), ∀ answer, reply.1 = .ok answer →
        answer = .node (.program []) ∨ answer = .node (.program [.block []]) := by
  obtain ⟨hlen, rfl⟩ := front_of_start he hs
  have hl : ∀ t ∈ (tokenize source).tokens, t.Lexical := fun t => lexical_of_mem_tokenize
  generalize (tokenize source).tokens = ts at hlen hl ⊢
  obtain ⟨u, v, hlast⟩ := List.length_eq_two.1 (show (ts.drop (ts.length - 2)).length = 2 by
    rw [List.length_drop]
    omega)
  obtain ⟨read, rfl⟩ : ∃ read, ts = read ++ [u, v] :=
    ⟨ts.take (ts.length - 2), by rw [← hlast, List.take_append_drop]⟩
  refine ⟨read, u, v, ⟨facing [u, v], none⟩, rfl, rfl, fun n => ?_, fun k => ?_⟩
  · rcases run_parse_of_front (e := e) hlen none n with
      hall | ⟨read', u', v', failed, k, hts, hrest⟩
    · exact .inl hall
    · obtain ⟨_, hlast⟩ := List.append_inj' hts rfl
      cases hlast
      exact .inr ⟨failed, k, hrest⟩
  · refine run_parse_of_short (fun t ht => hl t ?_) (by simp) none k
    exact List.mem_append_right _ ht

/-- The block before the mark that begins no token is a program for the second call, as though the
text began and ended with it. -/
theorem run_parse_of_fault_of_block :
    let source := "if (a) \x7b \x7d @"
    let e : LexicalFault := ⟨.invalidToken "@", ⟨1, 12⟩⟩
    (tokenize source).fault = some e ∧
      ∃ session, start (.ofSource source) = .ok session ∧
        (session.run [.parse, .parse]).map Prod.fst =
          [.error (.lexical e), .ok (.node (.program [.block []]))] ∧
        ∃ read u v truncated, (tokenize source).tokens = read ++ [u, v] ∧
          start (.ofTokens [some u, some v]) = .ok truncated ∧
          ∃ failed k, 2 = failed.length + 1 + k ∧
            (∀ reply ∈ failed, Complains (tokenize source).tokens reply) ∧
            session.run [.parse, .parse] =
              failed ++ (.error (.lexical e), truncated) ::
                truncated.run (List.replicate k .parse) := by
  intro source e
  have he : (tokenize source).fault = some e := by decide +kernel
  have hs : start (.ofSource source) = .ok ⟨front (tokenize source).tokens (some e), none⟩ := by
    decide +kernel
  have hruns : (run ⟨front (tokenize source).tokens (some e), none⟩ [.parse, .parse]).map Prod.fst =
      [.error (.lexical e), .ok (.node (.program [.block []]))] := by decide +kernel
  obtain ⟨read, u, v, truncated, htokens, htruncated, hall, -⟩ := run_parse_of_fault he hs
  refine ⟨he, _, hs, hruns, read, u, v, truncated, htokens, htruncated, ?_⟩
  refine (hall 2).resolve_left fun hcomplain => ?_
  -- the first call has met the fault
  obtain ⟨fault, hfault, hc⟩ := hcomplain _ List.mem_cons_self
  rw [run, List.map_cons] at hruns
  rw [(List.cons.inj hruns).1] at hfault
  cases hfault
  rcases hc with hc | ⟨t, _, _, _, hf⟩
  · simp [Fault.IsComplaint] at hc
  · cases hf

end Session

end MiniLang
