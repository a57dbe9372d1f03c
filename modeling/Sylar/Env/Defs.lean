import Mathlib.Data.Nat.Notation
import Mathlib.Logic.Function.Basic

/-!
# `Env`

Model of the command line of `Env` from `util/env.cc`. A C string is the list of its characters
before the NUL, so that the first character of the empty one is not a hyphen.
-/

namespace Sylar

/-- The fields of `Env`, without the help texts. -/
structure Env where
  m_args : List Char → Option (List Char)
  m_program : List Char
  m_exe : List Char
  m_cwd : List Char

namespace Env

/-- `Env()`. -/
def new : Env where
  m_args _ := none
  m_program := []
  m_exe := []
  m_cwd := []

/-- `add(key, val)`. -/
def add (key val : List Char) (env : Env) : Env :=
  { env with m_args := Function.update env.m_args key (some val) }

/-- `has(key)`. -/
def has (key : List Char) (env : Env) : Bool := (env.m_args key).isSome

/-- `get(key, default_value)`. -/
def get (key default_value : List Char) (env : Env) : List Char :=
  (env.m_args key).getD default_value

/-- `std::string::find_last_of` for one character. -/
def find_last_of (s : List Char) (c : Char) : Option ℕ :=
  (s.reverse.findIdx? (· = c)).map (s.length - 1 - ·)

/-- The prefix of a string up to a position, or all of it for `npos`. -/
def substr (s : List Char) (pos : Option ℕ) : List Char :=
  match pos with
  | none => s
  | some pos => s.take pos

/-- A key that waits for its value gets the empty one. -/
def flush (now_key : Option (List Char)) (env : Env) : Env :=
  match now_key with
  | none => env
  | some now_key => env.add now_key []

/-- The loop of `init` over the arguments after the name, and what follows it. -/
def initLoop : List (List Char) → Option (List Char) → Env → Bool × Env
  | [], now_key, env => (true, env.flush now_key)
  | arg :: args, now_key, env =>
    if arg.head? = some '-' then
      if arg.length > 1 then initLoop args (some arg.tail) (env.flush now_key)
      else (false, env)
    else
      match now_key with
      | some now_key => initLoop args none (env.add now_key arg)
      | none => (false, env)

/-- `init(argc, argv)`, where `exe` is what `readlink` has found. -/
def init (exe program : List Char) (args : List (List Char)) (env : Env) : Bool × Env :=
  initLoop args none
    { env with
      m_exe := exe
      m_cwd := substr exe (find_last_of exe '/') ++ ['/']
      m_program := program }

end Env

end Sylar
