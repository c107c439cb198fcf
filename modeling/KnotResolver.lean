import KnotResolver.Defines
import KnotResolver.Wire.Dname
import KnotResolver.Wire.Lf2wire
import KnotResolver.Wire.Rdata
import KnotResolver.Text.U16tostr
import KnotResolver.Cache.Rrkey
import KnotResolver.Ranked.Array
import KnotResolver.Ranked.Frame
import KnotResolver.Ranked.SetWire
import KnotResolver.Ranked.Runs
import KnotResolver.Dnssec.Rrsig
import KnotResolver.Dnssec.Validate
import KnotResolver.Dnssec.Key
import KnotResolver.Rnd.Buffered
import KnotResolver.Text.CString
import KnotResolver.Text.Inet
import KnotResolver.Text.InetInverse
import KnotResolver.Text.Straddr
import KnotResolver.Context.Result
import KnotResolver.Module.Call
import KnotResolver.Net.Sockaddr
import KnotResolver.Wire.Header
import KnotResolver.Net.Subnet
import KnotResolver.Mem.Alloc
