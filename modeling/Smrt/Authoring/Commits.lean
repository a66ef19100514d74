import Smrt.Http.Writers

/-!
# Commits

A commit of a pack: its snapshot of the config, named by a digest of what it follows, who
signs it, when, with what words, and what the config was. How bytes are digested and how a
config is written as bytes are outside.
-/

namespace Smrt

/-- A commit, with its snapshot. -/
structure Commit where
  id : String
  parent : Option String
  author : String
  message : String
  at' : String
  configRev : String
  contributors : List String
  snapshot : PackConfig
  deriving DecidableEq

/-- How commits are named: the digest of a text, and a config as text. -/
structure Naming where
  sha1 : String → String
  text : PackConfig → String

/-- A commit of a config that follows `parent`. -/
def makeCommit (X : Outside) (N : Naming) (cfg : PackConfig) (parent : Option String)
    (author message : String) (contributors : List String) (at' : String) : Commit where
  id := N.sha1 (parent.getD "" ++ "\n" ++ author ++ "\n" ++ at' ++ "\n" ++ message ++ "\n" ++
    N.text cfg)
  parent
  author
  message
  at'
  configRev := editRev X cfg
  contributors
  snapshot := cfg

end Smrt
