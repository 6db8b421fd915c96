/-
What to scan.
-/
import PolicyLint.Path

namespace PolicyLint
namespace Scan

structure Config where
  /-- The directory that search directories and shown paths are relative to. -/
  root : Bytes
  /-- The directories to search below the root. -/
  searchDirs : List Bytes
  /-- The largest size of a file, in bytes. -/
  maxFileSize : Nat
  /-- Whether links to directories are followed. -/
  followLinks : Bool
  /-- How deep below a search directory files may lie. -/
  maxDepth : Nat
deriving DecidableEq, Repr

namespace Config

/-- Where documentation with traffic policies is found. -/
def defaultSearchDirs : List Bytes :=
  ["traffic-policy", "snippets/traffic-policy", "universal-gateway"].map Bytes.of

/-- Ten mebibytes. -/
def defaultMaxFileSize : Nat := 10 * 1024 * 1024

def defaultMaxDepth : Nat := 64

/-- The configuration for a root when nothing else is said. -/
def forRoot (root : Bytes) : Config where
  root := root
  searchDirs := defaultSearchDirs
  maxFileSize := defaultMaxFileSize
  followLinks := false
  maxDepth := defaultMaxDepth

/-- The search directories as seen from where the root is. -/
def resolvedSearchDirs (c : Config) : List Bytes :=
  c.searchDirs.map (Path.join c.root)

/-- A path as reports show it. -/
def displayPath (c : Config) (p : Bytes) : Bytes :=
  Path.relative c.root p

end Config
end Scan
end PolicyLint
