import Webserv.Coding.Message
import Webserv.Coding.Words
import Webserv.Config.Blocks

namespace Webserv

open Cxx Coding

/-! What a configuration says, independent of its parser: servers as lists of
directives, their text, and the blocks they stand for. -/

instance neZeroOctet : NeZero (256 : Nat) := ⟨by decide⟩

structure Address where
  first : Fin 256
  second : Fin 256
  third : Fin 256
  fourth : Fin 256
  deriving DecidableEq, Repr

namespace Address

def octets (address : Address) : List (Fin 256) :=
  [address.first, address.second, address.third, address.fourth]

def text (address : Address) : Str :=
  ['.'].intercalate (address.octets.map fun octet : Fin 256 => decimal octet)

end Address

structure PlainWord (word : Str) : Prop extends SolidWord word where
  noSemicolon : ';' ∉ word
  noHash : '#' ∉ word
  noOpen : '{' ∉ word
  noClose : '}' ∉ word

theorem plainWord_iff {word : Str} :
    PlainWord word ↔ word ≠ [] ∧ ∀ c ∈ word,
      isspace c = false ∧ c ≠ ';' ∧ c ≠ '#' ∧ c ≠ '{' ∧ c ≠ '}' := by
  constructor
  · intro h
    refine ⟨h.ne_nil, fun c hc => ⟨h.noSpace c hc, ?_, ?_, ?_, ?_⟩⟩
    · exact fun heq => h.noSemicolon (heq ▸ hc)
    · exact fun heq => h.noHash (heq ▸ hc)
    · exact fun heq => h.noOpen (heq ▸ hc)
    · exact fun heq => h.noClose (heq ▸ hc)
  · rintro ⟨hne, hall⟩
    refine ⟨⟨hne, fun c hc => (hall c hc).1⟩, ?_, ?_, ?_, ?_⟩
    · exact fun hc => (hall _ hc).2.1 rfl
    · exact fun hc => (hall _ hc).2.2.1 rfl
    · exact fun hc => (hall _ hc).2.2.2.1 rfl
    · exact fun hc => (hall _ hc).2.2.2.2 rfl

instance (word : Str) : Decidable (PlainWord word) :=
  decidable_of_iff' _ plainWord_iff

inductive RouteItem
  | allowedMethods (methods : List Str)
  | autoindex (on : Bool)
  | index (names : List Str)
  | cgiExtension (extensions : List Str)
  | clientBodyTempPath (path : Str)
  | root (path : Str)
  /-- The directive `return`. -/
  | redirect (code url : Str)
  deriving DecidableEq, Repr

namespace RouteItem

def name : RouteItem → Str
  | allowedMethods _ => "allowed_methods".toList
  | autoindex _ => "autoindex".toList
  | index _ => "index".toList
  | cgiExtension _ => "cgi_extension".toList
  | clientBodyTempPath _ => "client_body_temp_path".toList
  | root _ => "root".toList
  | redirect _ _ => "return".toList

def arguments : RouteItem → List Str
  | allowedMethods methods => methods
  | autoindex on => [if on then "on".toList else "off".toList]
  | index names => names
  | cgiExtension extensions => extensions
  | clientBodyTempPath path => [path]
  | root path => [path]
  | redirect code url => [code, url]

def words (item : RouteItem) : List Str := item.name :: item.arguments

/-- The last value of a field counts, and the first target of a code. -/
def apply (route : RouteBlock) : RouteItem → RouteBlock
  | allowedMethods methods => { route with methods := methods.eraseDups }
  | autoindex on => { route with autoindex := on }
  | index names => { route with index := names }
  | cgiExtension extensions => { route with cgiExtension := extensions }
  | clientBodyTempPath path => { route with clientBodyTempPath := path }
  | root path => { route with root := path }
  | redirect code url =>
      { route with
        redirections := codeInsert (extractInt code) url route.redirections }

/-- The arguments are plain, and the parser of their value takes them. -/
structure Valid {W : Type} [Os W] (world : W) (item : RouteItem) : Prop where
  plain : ∀ word ∈ item.arguments, PlainWord word
  accepted : (routeDirective world {} item.words).map Prod.snd = some true

end RouteItem

inductive ServerItem
  | host (address : Address)
  | listen (port : Nat)
  | serverName (name : Str)
  | index (names : List Str)
  | clientMaxBodySize (size : Str)
  | root (path : Str)
  | errorPage (codes : List Str) (page : Str)
  | location (uri : Str) (items : List RouteItem)
  deriving Repr

/-- The entries of one `error_page`. -/
def pageEntries (codes : List Str) (page : Str) : List (Int × Str) :=
  codes.foldl (fun pages code => codeAssign (extractInt code) page pages) []

def locationBlock (uri : Str) (items : List RouteItem) : RouteBlock :=
  items.foldl RouteItem.apply { uri := uri }

namespace ServerItem

def name : ServerItem → Str
  | host _ => "host".toList
  | listen _ => "listen".toList
  | serverName _ => "server_name".toList
  | index _ => "index".toList
  | clientMaxBodySize _ => "client_max_body_size".toList
  | root _ => "root".toList
  | errorPage _ _ => "error_page".toList
  | location _ _ => "location".toList

def arguments : ServerItem → List Str
  | host address => [address.text]
  | listen port => [decimal port]
  | serverName name => [name]
  | index names => names
  | clientMaxBodySize size => [size]
  | root path => [path]
  | errorPage codes page => codes ++ [page]
  | location uri _ => [uri]

def words (item : ServerItem) : List Str := item.name :: item.arguments

def apply (server : ServerBlock) : ServerItem → ServerBlock
  | host address => { server with host := address.text }
  | listen port => { server with port := server.port ++ [(port : Int)] }
  | serverName name => { server with serverNames := name }
  | index names => { server with index := server.index ++ names }
  | clientMaxBodySize size =>
      { server with
        clientBodySize := (parsCbs ["client_max_body_size".toList, size]).1 }
  | root path => { server with serverRoot := path }
  | errorPage codes page =>
      { server with
        errorPages := codeInsertAll (pageEntries codes page)
          server.errorPages }
  | location uri items =>
      { server with routes := server.routes ++ [locationBlock uri items] }

def Valid {W : Type} [Os W] (world : W) : ServerItem → Prop
  | host _ => True
  | listen port => 1 ≤ port ∧ port ≤ 65535
  | location uri items =>
      PlainWord uri ∧ uri.head? = some '/' ∧ items ≠ [] ∧
        ∀ item ∈ items, item.Valid world
  | item =>
      (∀ word ∈ item.arguments, PlainWord word) ∧
        (serverDirective world 0 {} item.words).map Prod.snd = some true

end ServerItem

/-- A server with at least one host and one port. -/
structure ConfigServer where
  items : List ServerItem
  deriving Repr

namespace ConfigServer

structure Valid {W : Type} [Os W] (world : W) (server : ConfigServer) :
    Prop where
  items : ∀ item ∈ server.items, item.Valid world
  host : ∃ address, .host address ∈ server.items
  listen : ∃ port, .listen port ∈ server.items

/-- The directives one after the other, then the location for `/`. -/
def block (server : ConfigServer) : ServerBlock :=
  let filled := server.items.foldl ServerItem.apply {}
  match filled.routes.find? (·.uri = "/".toList) with
  | some route =>
      { filled with serverRoot := route.root, index := route.index }
  | none => filled

end ConfigServer

/-! The text: single blanks between the words, a semicolon behind each
directive, braces around the blocks. -/

def RouteItem.text (item : RouteItem) : Str := unwords item.words ++ [';']

def blockText (opening body : List Str) : Str :=
  unwords (opening ++ body ++ ["\x7d".toList])

def ServerItem.text : ServerItem → Str
  | .location uri items =>
      blockText ["location".toList, uri, "\x7b".toList]
        (items.map RouteItem.text)
  | item => unwords item.words ++ [';']

def ConfigServer.text (server : ConfigServer) : Str :=
  blockText ["server".toList, "\x7b".toList] (server.items.map ServerItem.text)

def configText (servers : List ConfigServer) : Str :=
  unwords (servers.map ConfigServer.text)

end Webserv
