import MiniLang.Lexeme
/-!
# Token streams

A stream gives its tokens one by one.  It may give a gap, an absent token, at any place, and instead
of its end it may have one fault; once the fault is out the stream has ended.  The tokens of a
source text form a stream without gaps.
-/

set_option autoImplicit false

namespace MiniLang

/-! ## The tokens of a source text -/

/-- The tokens of a source text up to its end or its first lexical fault. -/
structure Tokenized where
  tokens : List Token
  fault : Option LexicalFault
  deriving DecidableEq, Repr, Inhabited

/-- The same with one more token in front. -/
def Tokenized.cons (token : Token) (more : Tokenized) : Tokenized :=
  ⟨token :: more.tokens, more.fault⟩

/-- The text of the token that is written as `piece` at `position`. -/
def Rule.textOf (rule : Rule) (position : Position) (piece : List Char) :
    Except LexicalFault (List Char) :=
  match rule with
  | .string => Escape.decodeLiteral position piece
  | _ => .ok piece

/-- The fault of a text `c :: cs` at whose front no rule applies. -/
def unreadable (position : Position) (c : Char) (cs : List Char) : LexicalFault :=
  if c = '!' then ⟨.unknownCharacter (String.singleton c), position⟩
  else if c = '"' then Escape.unclosed position (position.right 1) cs
  else ⟨.invalidToken (String.singleton c), position⟩

/-- The tokens of the text that begins at `position`.  A line break within a string literal counts
as one column; a run of line breaks between lexemes starts a new line. -/
def tokenizeFrom (position : Position) : List Char → Tokenized
  | [] => ⟨[], none⟩
  | c :: cs =>
    if isBlank c then tokenizeFrom (position.right 1) cs
    else
      match _h : Rule.first? (c :: cs) with
      | none => ⟨[], some (unreadable position c cs)⟩
      | some (rule, (piece, rest)) =>
        match rule.kind? with
        | none => tokenizeFrom (position.down piece.length) rest
        | some kind =>
          match rule.textOf position piece with
          | .error fault => ⟨[], some fault⟩
          | .ok text =>
            .cons ⟨kind, String.ofList text, position⟩
              (tokenizeFrom (position.right piece.length) rest)
termination_by cs => cs.length
decreasing_by
  · simp
  · exact Rule.length_of_first? _h
  · exact Rule.length_of_first? _h

/-- The tokens of a source text. -/
def tokenize (source : String) : Tokenized := tokenizeFrom .start source.toList

/-! ## Streams -/

/-- What a stream has still to give: tokens and gaps, and then its end or a fault. -/
structure Stream where
  tokens : List (Option Token)
  fault : Option LexicalFault
  deriving DecidableEq, Repr, Inhabited

namespace Stream

/-- The stream that has ended. -/
def ended : Stream := ⟨[], none⟩

/-- The stream of tokens that are at hand, with gaps between them. -/
def ofTokens (tokens : List (Option Token)) : Stream := ⟨tokens, none⟩

/-- The stream of the tokens of a source text. -/
def ofSource (source : String) : Stream :=
  ⟨(tokenize source).tokens.map some, (tokenize source).fault⟩

/-- The next token, absent at a gap and after the end, and the stream after it.  After its fault a
stream has ended. -/
def pull (stream : Stream) : Except LexicalFault (Option Token × Stream) :=
  match stream.tokens with
  | token :: tokens => .ok (token, ⟨tokens, stream.fault⟩)
  | [] =>
    match stream.fault with
    | none => .ok (none, ended)
    | some fault => .error fault

/-- How many tokens and gaps a stream has still to give. -/
def length (stream : Stream) : Nat := stream.tokens.length

@[simp] theorem length_ended : ended.length = 0 := rfl

/-- A stream that has given a token has one less to give. -/
theorem length_of_pull {stream after : Stream} {token : Token}
    (h : stream.pull = .ok (some token, after)) : after.length < stream.length := by
  obtain ⟨tokens, fault⟩ := stream
  cases tokens with
  | nil => cases fault <;> cases h
  | cons first tokens =>
    cases h
    exact Nat.lt_succ_self _

/-- The tokens that a stream gives one after the other until none comes, or its fault. -/
def drain (stream : Stream) : Except LexicalFault (List Token) :=
  match _h : stream.pull with
  | .error fault => .error fault
  | .ok (none, _) => .ok []
  | .ok (some token, after) => (drain after).map (token :: ·)
termination_by stream.length
decreasing_by exact length_of_pull _h

end Stream

end MiniLang
